import Mathlib.Algebra.GroupWithZero.Nat
import Mathlib.Data.Fin.Basic

/-!
# Cards and the deck

A card is its packed index `0..52`. The deck is a shuffled array of 52 cards
with a cursor; how the array was shuffled plays no role in dealing, so every
arrangement is considered.
-/

namespace VibePoker.Core

/-- There are cards, so a packed card can be written as a number. -/
instance deckSize_neZero : NeZero 52 := ⟨Nat.succ_ne_zero 51⟩

/-- A packed card. -/
structure Card where
  index : Fin 52
deriving DecidableEq, Repr

/-- A shuffled deck and the position of the next card to deal. -/
structure Deck where
  cards : Fin 52 → Card
  cursor : ℕ

/-- Ordering of seven-card hands, as the numeric value of the hand rank. -/
structure HandEvaluator where
  rank7 : List Card → ℕ

namespace Deck

/-- The deck whose cards come in the given order; `Deck::new` shuffles the order
from its seed. -/
def new (order : Fin 52 → Card) : Deck := { cards := order, cursor := 0 }

/-- Deal the next card; `none` is the out-of-bounds panic of an exhausted deck. -/
def deal (deck : Deck) : Option (Card × Deck) :=
  if h : deck.cursor < 52 then
    some (deck.cards ⟨deck.cursor, h⟩, { deck with cursor := deck.cursor + 1 })
  else none

/-- Deal `count` cards in a row. -/
def dealMany (deck : Deck) : ℕ → Option (List Card × Deck)
  | 0 => some ([], deck)
  | count + 1 => do
    let (card, deck) ← deck.deal
    let (cards, deck) ← deck.dealMany count
    some (card :: cards, deck)

theorem deal_eq_some_iff {deck : Deck} {card : Card} {deck' : Deck} :
    deck.deal = some (card, deck') ↔
      ∃ h : deck.cursor < 52, card = deck.cards ⟨deck.cursor, h⟩ ∧
        deck' = { deck with cursor := deck.cursor + 1 } := by
  unfold deal
  split
  case isTrue h => simp [h, eq_comm]
  case isFalse h => simp [h]

/-- Dealing succeeds as long as enough cards remain, and moves the cursor past
the cards dealt. -/
theorem dealMany_of_le {deck : Deck} {count : ℕ} (h : deck.cursor + count ≤ 52) :
    ∃ cards, deck.dealMany count = some (cards, { deck with cursor := deck.cursor + count }) ∧
      cards.length = count := by
  induction count generalizing deck with
  | zero => exact ⟨[], rfl, rfl⟩
  | succ count ih =>
    have hdeal : deck.deal = some (deck.cards ⟨deck.cursor, by omega⟩,
        { deck with cursor := deck.cursor + 1 }) := by
      rw [deal, dif_pos (by omega)]
    have hrest : (⟨deck.cards, deck.cursor + 1⟩ : Deck).cursor + count ≤ 52 := by
      simpa using by omega
    obtain ⟨cards, hcards, hlength⟩ := ih hrest
    refine ⟨deck.cards ⟨deck.cursor, by omega⟩ :: cards, ?_, by simp [hlength]⟩
    simp only [dealMany, hdeal, hcards, Option.bind_eq_bind, Option.bind_some]
    rw [show deck.cursor + 1 + count = deck.cursor + (count + 1) by omega]

theorem dealMany_length {deck deck' : Deck} {count : ℕ} {cards : List Card}
    (h : deck.dealMany count = some (cards, deck')) : cards.length = count := by
  induction count generalizing deck cards deck' with
  | zero =>
    obtain ⟨rfl, -⟩ : [] = cards ∧ deck = deck' := by simpa [dealMany] using h
    rfl
  | succ count ih =>
    simp only [dealMany, Option.bind_eq_bind, Option.bind_eq_some_iff, Option.some.injEq,
      Prod.mk.injEq, Prod.exists] at h
    obtain ⟨_, _, _, rest, _, hrest, rfl, -⟩ := h
    simp [ih hrest]

end Deck

end VibePoker.Core
