import VibePoker.Core.Deck

/-!
# Hand ranks

The rank of a hand is a number of 32 bits: four bits for the category, and up to seven ranks
of four bits each behind it.
-/

namespace VibePoker.Core

inductive HandCategory
  | highCard
  | onePair
  | twoPair
  | threeOfAKind
  | straight
  | flush
  | fullHouse
  | fourOfAKind
  | straightFlush
deriving DecidableEq, Repr

namespace HandCategory

/-- The number of a category. -/
def index : HandCategory → ℕ
  | .highCard => 0
  | .onePair => 1
  | .twoPair => 2
  | .threeOfAKind => 3
  | .straight => 4
  | .flush => 5
  | .fullHouse => 6
  | .fourOfAKind => 7
  | .straightFlush => 8

/-- All categories, by their numbers. -/
def all : List HandCategory :=
  [.highCard, .onePair, .twoPair, .threeOfAKind, .straight, .flush, .fullHouse, .fourOfAKind,
    .straightFlush]

end HandCategory

/-- `HandRank`: higher is stronger. -/
structure HandRank where
  value : ℕ
deriving DecidableEq, Repr

/-- The upper four bits, as a category. -/
def HandRank.category (rank : HandRank) : HandCategory :=
  HandCategory.all.getD (min (rank.value / 2 ^ 28) 8) .straightFlush

/-- The trait `HandEvaluator`, with both of its methods. -/
structure RankEvaluator where
  rank7 : List Card → HandRank
  rank5 : List Card → HandRank

/-- What the engine uses of an evaluator. -/
def RankEvaluator.toHandEvaluator (eval : RankEvaluator) : HandEvaluator :=
  { rank7 := fun cards => (eval.rank7 cards).value }

end VibePoker.Core
