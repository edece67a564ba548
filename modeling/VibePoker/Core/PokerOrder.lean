import Mathlib.Data.List.FinRange
import Mathlib.Data.List.Perm.Basic
import VibePoker.Abstraction.Preflop
import VibePoker.Core.HandRank
import VibePoker.Math.LexDigits

/-!
# The order of poker hands

What standard poker says about five cards: a hand is of the highest category whose mark it
bears. Among hands of a category the ranks decide, those that a hand has more often before
the others and higher ones before lower ones. Straights compare by their highest card; the
ace may stand below the deuce, which makes the lowest of them.

## Main definitions

* `HandCategory.Fits` — the mark of a category
* `strength` — the category of a hand and the ranks that decide, which compare in this order

## Main results

* `strength_perm`, `strength_permuteSuits` — neither the order of the cards nor the choice of
  suits matters
-/

namespace VibePoker.Core

open VibePoker.Math

/-! ## Five cards -/

/-- How often a hand has a rank. -/
def timesOf (hand : List Card) (r : Rank) : ℕ := (hand.map Card.rank).count r

/-- Five ranks in a row, from `high` down. Below the deuce stands the ace. -/
def run (high : Rank) : List Rank := [high, high - 1, high - 2, high - 3, high - 4]

/-- The highest card of a straight: the five, or a higher one. -/
def straightHigh (hand : List Card) : Option Rank :=
  (List.finRange 13).reverse.find? fun high => 3 ≤ high ∧ (hand.map Card.rank).Perm (run high)

/-- All cards have one suit. -/
def IsFlush (hand : List Card) : Prop := ∃ s, ∀ card ∈ hand, card.suit = s

instance (hand : List Card) : Decidable (IsFlush hand) :=
  inferInstanceAs (Decidable (∃ s : Suit, ∀ card ∈ hand, card.suit = s))

/-- The mark of a category. A hand may bear several of them. -/
def HandCategory.Fits (hand : List Card) : HandCategory → Prop
  | .highCard => True
  | .onePair => ∃ r, 2 ≤ timesOf hand r
  | .twoPair => ∃ r r', r ≠ r' ∧ 2 ≤ timesOf hand r ∧ 2 ≤ timesOf hand r'
  | .threeOfAKind => ∃ r, 3 ≤ timesOf hand r
  | .straight => (straightHigh hand).isSome
  | .flush => IsFlush hand
  | .fullHouse => ∃ r r', r ≠ r' ∧ 3 ≤ timesOf hand r ∧ 2 ≤ timesOf hand r'
  | .fourOfAKind => ∃ r, 4 ≤ timesOf hand r
  | .straightFlush => (straightHigh hand).isSome ∧ IsFlush hand

instance (hand : List Card) (c : HandCategory) : Decidable (c.Fits hand) := by
  cases c <;> unfold HandCategory.Fits <;> infer_instance

/-- The highest category whose mark a hand bears. -/
def category (hand : List Card) : HandCategory :=
  (HandCategory.all.reverse.find? fun c => c.Fits hand).getD .highCard

/-- The ranks that a hand has `m` times, from the highest down. -/
def ranksOf (hand : List Card) (m : ℕ) : List Rank :=
  (List.finRange 13).reverse.filter fun r => timesOf hand r = m

/-- The ranks of a hand, those that it has more often first. -/
def byMultiplicity (hand : List Card) : List Rank := [4, 3, 2, 1].flatMap (ranksOf hand)

/-- The ranks that decide between hands of a category. -/
def decidingRanks (hand : List Card) : List Rank :=
  match category hand with
  | .straight | .straightFlush => (straightHigh hand).toList
  | _ => byMultiplicity hand

/-- The strength of a hand: first the category, then the ranks that decide. -/
def strength (hand : List Card) : ℕ ×ₗ List ℕ :=
  toLex ((category hand).index, (decidingRanks hand).map Fin.val)

/-! ## What does not matter -/

/-- The same card in another suit. -/
def Card.permuteSuits (σ : Equiv.Perm Suit) (card : Card) : Card :=
  ⟨⟨card.rank * 4 + σ card.suit, by omega⟩⟩

@[simp] theorem permuteSuits_rank (σ : Equiv.Perm Suit) (card : Card) :
    (card.permuteSuits σ).rank = card.rank := by
  ext
  simp only [Card.permuteSuits, Card.rank]
  omega

@[simp] theorem permuteSuits_suit (σ : Equiv.Perm Suit) (card : Card) :
    (card.permuteSuits σ).suit = σ card.suit := by
  ext
  simp only [Card.permuteSuits, Card.suit]
  omega

/-- A card is determined by its rank and its suit. -/
theorem Card.ext_rank_suit {card card' : Card} (hrank : card.rank = card'.rank)
    (hsuit : card.suit = card'.suit) : card = card' := by
  obtain ⟨i⟩ := card
  obtain ⟨j⟩ := card'
  simp only [Card.rank, Card.suit, Fin.mk.injEq] at hrank hsuit
  congr 1
  omega

theorem permuteSuits_injective (σ : Equiv.Perm Suit) :
    Function.Injective (Card.permuteSuits σ) := by
  intro card card' h
  refine Card.ext_rank_suit ?_ (σ.injective ?_)
  · rw [← permuteSuits_rank σ card, h, permuteSuits_rank]
  · rw [← permuteSuits_suit, h, permuteSuits_suit]

/-- The ranks, and whether the suits agree, determine the strength. -/
theorem strength_congr {hand hand' : List Card}
    (hranks : (hand.map Card.rank).Perm (hand'.map Card.rank))
    (hflush : IsFlush hand ↔ IsFlush hand') : strength hand = strength hand' := by
  have htimes : timesOf hand = timesOf hand' := funext fun r => hranks.count_eq r
  have hhigh : straightHigh hand = straightHigh hand' := by
    rw [straightHigh, straightHigh]
    congr 1
    funext high
    rw [decide_eq_decide, hranks.congr_left]
  have hfits : ∀ c : HandCategory, c.Fits hand ↔ c.Fits hand' := by
    intro c
    cases c <;> simp only [HandCategory.Fits, htimes, hhigh, hflush]
  have hcategory : category hand = category hand' := by
    simp only [category, hfits]
  have hmultiplicity : byMultiplicity hand = byMultiplicity hand' := by
    rw [byMultiplicity, byMultiplicity]
    congr 1
    funext m
    rw [ranksOf, ranksOf, htimes]
  simp only [strength, decidingRanks, hcategory, hhigh, hmultiplicity]

/-- The order of the cards does not matter. -/
theorem strength_perm {hand hand' : List Card} (h : hand.Perm hand') :
    strength hand = strength hand' :=
  strength_congr (h.map _) (exists_congr fun s => forall_congr' fun card => by rw [h.mem_iff])

/-- The choice of the suits does not matter. -/
theorem strength_permuteSuits (σ : Equiv.Perm Suit) (hand : List Card) :
    strength (hand.map (Card.permuteSuits σ)) = strength hand := by
  refine strength_congr (List.Perm.of_eq ?_) ?_
  · rw [List.map_map]
    exact List.map_congr_left fun card _ => permuteSuits_rank σ card
  · constructor
    · rintro ⟨s, hs⟩
      refine ⟨σ.symm s, fun card hcard => ?_⟩
      rw [Equiv.eq_symm_apply, ← permuteSuits_suit]
      exact hs _ (List.mem_map_of_mem hcard)
    · rintro ⟨s, hs⟩
      refine ⟨σ s, fun card hcard => ?_⟩
      obtain ⟨card', hcard', rfl⟩ := List.mem_map.mp hcard
      rw [permuteSuits_suit, hs card' hcard']

end VibePoker.Core
