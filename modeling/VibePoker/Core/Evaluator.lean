import Mathlib.Data.List.FinRange
import Mathlib.Data.List.Sort
import VibePoker.Abstraction.Preflop
import VibePoker.Core.HandRank

/-!
# The naive evaluator

`NaiveEvaluator` ranks five cards by their sorted ranks, and seven cards by the best five of
them. The rank of a hand is a number of 32 bits with the category in the upper four and the
ranks that decide behind it, four bits each.

## Main definitions

* `rank5Naive` — the rank of five cards
* `bestOf7` — the rank of seven cards
* `naiveEvaluator` — the evaluator
-/

namespace VibePoker.Core

/-! ## Counting ranks -/

/-- Five ranks in a row, the highest first. -/
def isStraightRanks : List Rank → Bool
  | [r₀, r₁, r₂, r₃, r₄] =>
    r₀.val = r₄.val + 4 && r₀ ≠ r₁ && r₁ ≠ r₂ && r₂ ≠ r₃ && r₃ ≠ r₄
  | _ => false

/-- How often each rank occurs. -/
def rankCounts (ranks : List Rank) : Rank → ℕ :=
  ranks.foldl (fun counts r => Function.update counts r (counts r + 1)) fun _ => 0

/-- The highest rank with the given count. -/
def rposition (counts : Rank → ℕ) (count : ℕ) : Option Rank :=
  (List.finRange 13).reverse.find? fun r => counts r = count

def fourOfAKind (counts : Rank → ℕ) : Option Rank := rposition counts 4

def fullHouse (counts : Rank → ℕ) : Option (Rank × Rank) := do
  let three ← rposition counts 3
  let pair ← rposition counts 2
  some (three, pair)

def threeOfAKind (counts : Rank → ℕ) : Option Rank := rposition counts 3

def twoPair (counts : Rank → ℕ) : Option (Rank × Rank) :=
  let pairs := (List.finRange 13).filter fun r => counts r = 2
  if 2 ≤ pairs.length then
    some (pairs.getD (pairs.length - 1) 0, pairs.getD (pairs.length - 2) 0)
  else none

def onePair (counts : Rank → ℕ) : Option Rank := rposition counts 2

/-- The first `n` ranks, four bits each. -/
def tiebreakKickers (ranks : List Rank) (n : ℕ) : ℕ :=
  (ranks.take n).foldl (fun acc r => acc <<< 4 ||| r.val) 0

/-! ## Five cards -/

/-- The rank of five cards that are sorted by their ranks. -/
def rankSorted (cards : List Card) : HandRank :=
  let ranks := cards.map Card.rank
  let suits := cards.map Card.suit
  let isFlush := suits.all fun s => s = suits.getD 0 0
  let isStraight := isStraightRanks ranks
  -- the ace counts low
  let isWheel := ranks = [12, 3, 2, 1, 0]
  let high := if isWheel then 3 else (ranks.getD 0 0).val
  if isFlush && (isStraight || isWheel) then ⟨0x80000000 ||| high⟩
  else
    let counts := rankCounts ranks
    match fourOfAKind counts with
    | some r =>
      let kicker := (ranks.find? fun x => x ≠ r).getD 0
      ⟨0x70000000 ||| r.val <<< 4 ||| kicker.val⟩
    | none =>
    match fullHouse counts with
    | some (three, pair) => ⟨0x60000000 ||| three.val <<< 4 ||| pair.val⟩
    | none =>
    if isFlush then ⟨0x50000000 ||| tiebreakKickers ranks 5⟩
    else if isStraight || isWheel then ⟨0x40000000 ||| high⟩
    else
    match threeOfAKind counts with
    | some r =>
      let kickers := ranks.filter fun x => x ≠ r
      let tb := (kickers.getD 0 0).val <<< 4 ||| (kickers.getD 1 0).val
      ⟨0x30000000 ||| r.val <<< 8 ||| tb⟩
    | none =>
    match twoPair counts with
    | some (hi, lo) =>
      let kicker := (ranks.find? fun x => x ≠ hi && x ≠ lo).getD 0
      ⟨0x20000000 ||| hi.val <<< 8 ||| lo.val <<< 4 ||| kicker.val⟩
    | none =>
    match onePair counts with
    | some r =>
      let kickers := ranks.filter fun x => x ≠ r
      let tb := (kickers.getD 0 0).val <<< 8 ||| (kickers.getD 1 0).val <<< 4 |||
        (kickers.getD 2 0).val
      ⟨0x10000000 ||| r.val <<< 12 ||| tb⟩
    | none => ⟨tiebreakKickers ranks 5⟩

/-- `sort_unstable_by` the ranks, from the highest down. How cards of the same rank come to
stand makes no difference to what follows. -/
def sortByRank (cards : List Card) : List Card := cards.insertionSort fun a b => b.rank ≤ a.rank

def rank5Naive (cards : List Card) : HandRank := rankSorted (sortByRank cards)

/-! ## Seven cards -/

/-- The cards but for those at the indices `i` and `j`. -/
def leaveOut (cards : List Card) (i j : ℕ) : List Card :=
  (cards.zipIdx.filter fun c => c.2 ≠ i && c.2 ≠ j).map Prod.fst

/-- The better of the best rank so far and that of five cards. -/
def improve (best : HandRank) (five : List Card) : HandRank :=
  let rank := rank5Naive five
  if best.value < rank.value then rank else best

/-- The best rank of five of seven cards. -/
def bestOf7 (cards : List Card) : HandRank :=
  (List.range 7).foldl (fun best i =>
    (List.range' (i + 1) (7 - (i + 1))).foldl (fun best j => improve best (leaveOut cards i j))
      best) ⟨0⟩

/-- `NaiveEvaluator` -/
def naiveEvaluator : RankEvaluator := { rank7 := bestOf7, rank5 := rank5Naive }

end VibePoker.Core
