import VibePoker.Core.Evaluator
import VibePoker.Core.PokerOrder
import VibePoker.Game.Relabel

/-!
# The suits have no names

Poker knows suits as equal or different only. The naive evaluator ranks cards of exchanged suits
alike, and the engine does nothing with cards but deal them and have them ranked: exchanging the
suits of the whole deck exchanges them in all that a hand shows, and changes nothing else.

## Main results

* `bestOf7_permuteSuits` — the naive evaluator does not know the suits by name
* `hand_suit_symmetric` — neither does a hand
-/

namespace VibePoker.Core

variable (σ : Equiv.Perm Suit)

/-! ## The evaluator -/

theorem map_rank_permuteSuits (cards : List Card) :
    (cards.map (Card.permuteSuits σ)).map Card.rank = cards.map Card.rank := by
  rw [List.map_map]
  exact List.map_congr_left fun card _ => permuteSuits_rank σ card

/-- Whether all suits are the first one is not a matter of names. -/
theorem all_first_map (suits : List Suit) :
    ((suits.map σ).all fun s => s = (suits.map σ).getD 0 0) =
      suits.all fun s => s = suits.getD 0 0 := by
  cases suits with
  | nil => rfl
  | cons first rest => simp [List.all_map, Function.comp_def]

theorem rankSorted_permuteSuits (cards : List Card) :
    rankSorted (cards.map (Card.permuteSuits σ)) = rankSorted cards := by
  have hsuits : (cards.map (Card.permuteSuits σ)).map Card.suit = (cards.map Card.suit).map σ := by
    rw [List.map_map, List.map_map]
    exact List.map_congr_left fun card _ => permuteSuits_suit σ card
  simp only [rankSorted, map_rank_permuteSuits, hsuits, all_first_map]

theorem rank5Naive_permuteSuits (cards : List Card) :
    rank5Naive (cards.map (Card.permuteSuits σ)) = rank5Naive cards := by
  have hsort : sortByRank (cards.map (Card.permuteSuits σ)) =
      (sortByRank cards).map (Card.permuteSuits σ) := by
    refine (List.map_insertionSort _ _ _ _ fun a _ b _ => ?_).symm
    rw [permuteSuits_rank, permuteSuits_rank]
  rw [rank5Naive, rank5Naive, hsort, rankSorted_permuteSuits]

/-- The naive evaluator does not know the suits by name. -/
theorem bestOf7_permuteSuits (cards : List Card) :
    bestOf7 (cards.map (Card.permuteSuits σ)) = bestOf7 cards := by
  have hleave : ∀ i j, leaveOut (cards.map (Card.permuteSuits σ)) i j =
      (leaveOut cards i j).map (Card.permuteSuits σ) := by
    intro i j
    rw [leaveOut, leaveOut, List.zipIdx_map, List.filter_map, List.map_map, List.map_map]
    rfl
  have himprove : ∀ best i j, improve best (leaveOut (cards.map (Card.permuteSuits σ)) i j) =
      improve best (leaveOut cards i j) := by
    intro best i j
    rw [hleave, improve, improve, rank5Naive_permuteSuits]
  simp only [bestOf7, himprove]

end VibePoker.Core

namespace VibePoker.Abstraction

open VibePoker.Core

/-- Neither do the classes of hole cards. -/
theorem fromHole_permuteSuits (σ : Equiv.Perm Suit) (hole : Card × Card) :
    PreflopClass.fromHole (Prod.map (Card.permuteSuits σ) (Card.permuteSuits σ) hole) =
      PreflopClass.fromHole hole := by
  obtain ⟨first, second⟩ := hole
  have hsuit : ∀ card card' : Card,
      (card.permuteSuits σ).suit = (card'.permuteSuits σ).suit ↔ card.suit = card'.suit := by
    intro card card'
    rw [permuteSuits_suit, permuteSuits_suit, σ.injective.eq_iff]
  simp only [PreflopClass.fromHole, Prod.map_apply, permuteSuits_rank]
  split <;> simp only [permuteSuits_rank, hsuit]

end VibePoker.Abstraction

namespace VibePoker.Game

open VibePoker.Core

theorem overlooks_suits (rules : BettingRules) (σ : Equiv.Perm Suit) :
    (⟨rules, naiveEvaluator.toHandEvaluator⟩ : Engine).Overlooks (Card.permuteSuits σ) :=
  fun cards => congrArg HandRank.value (bestOf7_permuteSuits σ cards)

/-! ## The hand -/

/-- With an evaluator that does not know the suits by name, a hand from a deck with exchanged
suits asks the same seats, takes the same actions and pays the same chips as the hand from the
deck itself, and shows its cards with exchanged suits. -/
theorem hand_suit_symmetric {e : Engine} {σ : Equiv.Perm Suit}
    (hsuits : e.Overlooks (Card.permuteSuits σ)) (handId deckSeed : ℕ) (order : Fin 52 → Card)
    (startingStacks : List ℕ) (dealer : ℕ) (seatKinds : Option (List SeatKind))
    (answers : List Action) :
    runHand e handId deckSeed (Card.permuteSuits σ ∘ order) startingStacks dealer seatKinds
        answers =
      relabelHand (Card.permuteSuits σ)
        (runHand e handId deckSeed order startingStacks dealer seatKinds answers) :=
  runHand_relabel hsuits handId deckSeed order startingStacks dealer seatKinds answers

/-- Spades for clubs in a hand of two all-in seats. -/
theorem hand_suit_symmetric_all_in :
    runHand ⟨.noLimitHoldem 1 2, naiveEvaluator.toHandEvaluator⟩ 1 7
        (Card.permuteSuits (Equiv.swap 0 3) ∘ Card.mk) [50, 50] 0 none [.allIn, .allIn] =
      relabelHand (Card.permuteSuits (Equiv.swap 0 3))
        (runHand ⟨.noLimitHoldem 1 2, naiveEvaluator.toHandEvaluator⟩ 1 7 Card.mk [50, 50] 0 none
          [.allIn, .allIn]) :=
  hand_suit_symmetric (overlooks_suits _ _) 1 7 Card.mk [50, 50] 0 none [.allIn, .allIn]

end VibePoker.Game
