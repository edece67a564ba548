import Mathlib.Data.List.OfFn
import Mathlib.Data.List.FinRange
import VibePoker.Core.Deck
import VibePoker.Math.Shuffle

/-!
# The shuffled deck

`Deck::new` arranges the cards by their indices and shuffles them with a small random
generator that it starts from the seed. The generator is not part of the engine: it may draw
anything that is in range.

## Main definitions

* `RangeRng` — a random generator that draws from ranges
* `RangeRng.order` — the order in which the deck of a seed deals
* `Deck.toCome` — the cards that a deck has still to deal

## Main results

* `RangeRng.order_bijective` — a shuffled deck has every card once
-/

namespace VibePoker.Core

open VibePoker.Math

/-- A random generator: its state for a seed, and the draws from `0..=i`. -/
structure RangeRng (ρ : Type*) where
  seedFromU64 : ℕ → ρ
  genRange : (i : ℕ) → ρ → Fin (i + 1) × ρ

variable {ρ : Type*}

/-- The cards of `Deck::new(seed)`, in the order in which they are dealt. -/
def RangeRng.order (rng : RangeRng ρ) (seed : ℕ) : Fin 52 → Card :=
  shuffleFrom rng.genRange 51 (Nat.lt_succ_self 51) (rng.seedFromU64 seed) Card.mk

/-- Whatever the generator draws, the deck has every card exactly once. -/
theorem RangeRng.order_bijective (rng : RangeRng ρ) (seed : ℕ) :
    Function.Bijective (rng.order seed) := by
  obtain ⟨σ, hσ⟩ := exists_perm_shuffleFrom rng.genRange (Nat.lt_succ_self 51)
    (rng.seedFromU64 seed) Card.mk
  have hcards : Function.Bijective Card.mk :=
    ⟨fun _ _ h => Card.mk.inj h, fun card => ⟨card.index, rfl⟩⟩
  rw [RangeRng.order, hσ]
  exact hcards.comp σ.bijective

namespace Deck

/-- The cards from the cursor on. -/
def toCome (deck : Deck) : List Card := (List.ofFn deck.cards).drop deck.cursor

@[simp] theorem toCome_new (order : Fin 52 → Card) : (Deck.new order).toCome = List.ofFn order :=
  rfl

/-- The card dealt is the first of those to come. -/
theorem toCome_of_deal {deck deck' : Deck} {card : Card} (h : deck.deal = some (card, deck')) :
    deck.toCome = card :: deck'.toCome := by
  obtain ⟨hlt, rfl, rfl⟩ := deal_eq_some_iff.mp h
  rw [toCome, List.drop_eq_getElem_cons (by simpa using hlt), List.getElem_ofFn]
  rfl

theorem toCome_of_dealMany {deck deck' : Deck} {count : ℕ} {cards : List Card}
    (h : deck.dealMany count = some (cards, deck')) : deck.toCome = cards ++ deck'.toCome := by
  induction count generalizing deck cards with
  | zero =>
    obtain ⟨rfl, rfl⟩ : [] = cards ∧ deck = deck' := by simpa [dealMany] using h
    rfl
  | succ count ih =>
    simp only [dealMany, Option.bind_eq_bind, Option.bind_eq_some_iff, Option.some.injEq,
      Prod.mk.injEq, Prod.exists] at h
    obtain ⟨card, deck₁, hdeal, rest, _, hrest, rfl, rfl⟩ := h
    rw [toCome_of_deal hdeal, ih hrest, List.cons_append]

end Deck

end VibePoker.Core
