import Mathlib.Data.List.Sublists
import Mathlib.Order.Bounds.Basic
import VibePoker.Core.Ranking

/-!
# The evaluator and the order of poker

Seven cards have as their rank the strength of the best five of them, as standard poker has
it, and compare by it. Neither the order of the cards nor the choice of the suits matters.

## Main definitions

* `fives` — the hands of five cards among some cards

## Main results

* `rank7_follows_poker` — any two sets of seven cards
-/

namespace VibePoker.Core

variable {cards : List Card}

/-- The hands of five cards among some cards. -/
def fives (cards : List Card) : Set (List Card) :=
  {five | five.length = 5 ∧ five.Nodup ∧ five ⊆ cards}

/-! ## The best of seven -/

/-- The loops leave out two cards in all ways. -/
theorem foldl_leaveOut {β : Type*} (f : β → List Card → β) (b : β) (hlen : cards.length = 7) :
    (List.range 7).foldl (fun b i =>
        (List.range' (i + 1) (7 - (i + 1))).foldl (fun b j => f b (leaveOut cards i j)) b) b =
      (cards.sublistsLen 5).foldl f b := by
  match cards, hlen with
  | [c₀, c₁, c₂, c₃, c₄, c₅, c₆], _ => rfl

theorem bestOf7_eq (hlen : cards.length = 7) :
    bestOf7 cards = (cards.sublistsLen 5).foldl improve ⟨0⟩ := foldl_leaveOut improve ⟨0⟩ hlen

/-- Going through some hands finds one that no other one beats, or none that beats the best
so far. -/
theorem foldl_improve (hands : List (List Card)) (best : HandRank) :
    (hands.foldl improve best = best ∨ ∃ five ∈ hands, hands.foldl improve best = rank5Naive five) ∧
      best.value ≤ (hands.foldl improve best).value ∧
      ∀ five ∈ hands, (rank5Naive five).value ≤ (hands.foldl improve best).value := by
  induction hands generalizing best with
  | nil => exact ⟨Or.inl rfl, le_rfl, by simp⟩
  | cons first hands ih =>
    obtain ⟨hfound, hbest, hall⟩ := ih (improve best first)
    have himprove : (improve best first = best ∨ improve best first = rank5Naive first) ∧
        best.value ≤ (improve best first).value ∧
        (rank5Naive first).value ≤ (improve best first).value := by
      rw [improve]
      split
      · exact ⟨Or.inr rfl, by omega, le_rfl⟩
      · exact ⟨Or.inl rfl, le_rfl, by omega⟩
    obtain ⟨hwhich, hle, hfirst⟩ := himprove
    rw [List.foldl_cons]
    refine ⟨?_, hle.trans hbest, List.forall_mem_cons.mpr ⟨hfirst.trans hbest, hall⟩⟩
    rcases hfound with hsame | ⟨five, hmem, heq⟩
    · rcases hwhich with hkept | hnew
      · exact Or.inl (hsame.trans hkept)
      · exact Or.inr ⟨first, List.mem_cons_self, hsame.trans hnew⟩
    · exact Or.inr ⟨five, List.mem_cons_of_mem _ hmem, heq⟩

/-- Each hand of five cards is found, in some order. -/
theorem exists_sublist_perm (hnodup : cards.Nodup) {five : List Card} (h : five ∈ fives cards) :
    ∃ found ∈ cards.sublistsLen 5, found.Perm five := by
  obtain ⟨hlen, hfive, hsub⟩ := h
  have hperm : (cards.filter fun card => card ∈ five).Perm five := by
    refine (List.perm_ext_iff_of_nodup (hnodup.filter _) hfive).mpr fun card => ?_
    rw [List.mem_filter, decide_eq_true_eq]
    exact ⟨fun h => h.2, fun h => ⟨hsub h, h⟩⟩
  refine ⟨_, List.mem_sublistsLen.mpr ⟨List.filter_sublist, ?_⟩, hperm⟩
  rw [hperm.length_eq, hlen]

theorem mem_fives_of_sublist (hnodup : cards.Nodup) {five : List Card}
    (h : five ∈ cards.sublistsLen 5) : five ∈ fives cards := by
  obtain ⟨hsub, hlen⟩ := List.mem_sublistsLen.mp h
  exact ⟨hlen, hsub.nodup hnodup, hsub.subset⟩

/-- Seven cards have the rank of a hand of five of them, and no other one beats it. -/
theorem bestOf7_value (hlen : cards.length = 7) (hnodup : cards.Nodup) :
    ∃ x, IsGreatest (strength '' fives cards) x ∧ (bestOf7 cards).value = packed x := by
  obtain ⟨hfound, -, hall⟩ := foldl_improve (cards.sublistsLen 5) ⟨0⟩
  rw [← bestOf7_eq hlen] at hfound hall
  obtain ⟨five, hmem, hvalue⟩ : ∃ five ∈ cards.sublistsLen 5,
      (bestOf7 cards).value = (rank5Naive five).value := by
    rcases hfound with hzero | ⟨five, hmem, heq⟩
    · -- then all ranks are zero
      have hne : cards.sublistsLen 5 ≠ [] := by
        rw [Ne, ← List.length_eq_zero_iff, List.length_sublistsLen, hlen]
        decide
      obtain ⟨five, hmem⟩ := List.exists_mem_of_ne_nil _ hne
      have hle := hall five hmem
      rw [hzero] at hle ⊢
      exact ⟨five, hmem, (Nat.le_zero.mp hle).symm⟩
    · exact ⟨five, hmem, by rw [heq]⟩
  obtain ⟨hfive, hdistinct, hsub⟩ := mem_fives_of_sublist hnodup hmem
  rw [rank5Naive_value hfive hdistinct] at hvalue
  refine ⟨strength five, ⟨⟨five, ⟨hfive, hdistinct, hsub⟩, rfl⟩, ?_⟩, hvalue⟩
  rintro _ ⟨other, hother, rfl⟩
  obtain ⟨found, hfound, hperm⟩ := exists_sublist_perm hnodup hother
  have hle := hall found hfound
  obtain ⟨hlen', hnodup', -⟩ := mem_fives_of_sublist hnodup hfound
  rw [hvalue, rank5Naive_value hlen' hnodup', ← not_lt,
    packed_lt_iff hfive hdistinct hlen' hnodup', not_lt, strength_perm hperm] at hle
  exact hle

/-! ## What does not matter -/

/-- Equal strengths to choose from give equal ranks. -/
theorem bestOf7_congr {cards' : List Card} (hlen : cards.length = 7) (hnodup : cards.Nodup)
    (hlen' : cards'.length = 7) (hnodup' : cards'.Nodup)
    (h : strength '' fives cards' = strength '' fives cards) : bestOf7 cards' = bestOf7 cards := by
  obtain ⟨x, hx, hvalue⟩ := bestOf7_value hlen hnodup
  obtain ⟨y, hy, hvalue'⟩ := bestOf7_value hlen' hnodup'
  rw [h] at hy
  have hsame : (bestOf7 cards').value = (bestOf7 cards).value := by
    rw [hvalue, hvalue', hx.unique hy]
  exact congrArg HandRank.mk hsame

/-- The hands among cards in other suits are those hands in other suits. -/
theorem image_fives_permuteSuits (σ : Equiv.Perm Suit) (cards : List Card) :
    strength '' fives (cards.map (Card.permuteSuits σ)) = strength '' fives cards := by
  have hinto : ∀ (σ : Equiv.Perm Suit) (cards : List Card),
      strength '' fives cards ⊆ strength '' fives (cards.map (Card.permuteSuits σ)) := by
    rintro σ cards _ ⟨five, ⟨hlen, hnodup, hsub⟩, rfl⟩
    refine ⟨five.map (Card.permuteSuits σ), ⟨?_, ?_, List.map_subset _ hsub⟩,
      strength_permuteSuits σ five⟩
    · rw [List.length_map, hlen]
    · exact hnodup.map (permuteSuits_injective σ)
  refine Set.Subset.antisymm ?_ (hinto σ cards)
  -- the suits can be permuted back
  have hback : (cards.map (Card.permuteSuits σ)).map (Card.permuteSuits σ.symm) = cards := by
    rw [List.map_map]
    refine (List.map_congr_left fun card _ => ?_).trans (List.map_id cards)
    refine Card.ext_rank_suit ?_ ?_
    · rw [Function.comp_apply, permuteSuits_rank, permuteSuits_rank, id]
    · rw [Function.comp_apply, permuteSuits_suit, permuteSuits_suit, σ.symm_apply_apply, id]
  have hreturn := hinto σ.symm (cards.map (Card.permuteSuits σ))
  rwa [hback] at hreturn

/-! ## The theorem -/

/-- What standard poker makes of seven cards: the rank is that of the best five of them, in
whatever order and suits the cards come. -/
structure FollowsPoker (cards : List Card) (x : ℕ ×ₗ List ℕ) : Prop where
  best : IsGreatest (strength '' fives cards) x
  order : ∀ cards', cards'.Perm cards → naiveEvaluator.rank7 cards' = naiveEvaluator.rank7 cards
  suits : ∀ σ : Equiv.Perm Suit,
    naiveEvaluator.rank7 (cards.map (Card.permuteSuits σ)) = naiveEvaluator.rank7 cards

theorem followsPoker (hlen : cards.length = 7) (hnodup : cards.Nodup) {x : ℕ ×ₗ List ℕ}
    (hx : IsGreatest (strength '' fives cards) x) : FollowsPoker cards x where
  best := hx
  order cards' hperm := by
    have hfives : fives cards' = fives cards := by
      ext five
      exact and_congr_right fun _ => and_congr_right fun _ => hperm.subset_congr_right
    exact bestOf7_congr hlen hnodup (hperm.length_eq.trans hlen) (hperm.nodup_iff.mpr hnodup)
      (by rw [hfives])
  suits σ := bestOf7_congr hlen hnodup (by rw [List.length_map, hlen])
    (hnodup.map (permuteSuits_injective σ)) (image_fives_permuteSuits σ cards)

/-- The strengths of best hands compare like the numbers that they are packed in. -/
theorem packed_lt_of_best {a b : List Card} {x y : ℕ ×ₗ List ℕ}
    (hx : IsGreatest (strength '' fives a) x) (hy : IsGreatest (strength '' fives b) y) :
    packed x < packed y ↔ x < y := by
  obtain ⟨five, ⟨hlen, hnodup, -⟩, rfl⟩ := hx.1
  obtain ⟨five', ⟨hlen', hnodup', -⟩, rfl⟩ := hy.1
  exact packed_lt_iff hlen hnodup hlen' hnodup'

/-- Any two sets of seven different cards compare as their best five do in standard poker. -/
theorem rank7_follows_poker {a b : List Card} (ha : a.length = 7) (hb : b.length = 7)
    (hnodup : a.Nodup) (hnodup' : b.Nodup) :
    ∃ x y, FollowsPoker a x ∧ FollowsPoker b y ∧
      ((naiveEvaluator.rank7 a).value < (naiveEvaluator.rank7 b).value ↔ x < y) ∧
      (naiveEvaluator.rank7 a = naiveEvaluator.rank7 b ↔ x = y) := by
  obtain ⟨x, hx, hvalue⟩ := bestOf7_value ha hnodup
  obtain ⟨y, hy, hvalue'⟩ := bestOf7_value hb hnodup'
  have hlt : packed x < packed y ↔ x < y := packed_lt_of_best hx hy
  have hgt : packed y < packed x ↔ y < x := packed_lt_of_best hy hx
  refine ⟨x, y, followsPoker ha hnodup hx, followsPoker hb hnodup' hy, ?_, ?_⟩
  · change (bestOf7 a).value < (bestOf7 b).value ↔ _
    rw [hvalue, hvalue', hlt]
  · have heq : bestOf7 a = bestOf7 b ↔ packed x = packed y := by
      rw [← hvalue, ← hvalue']
      exact ⟨congrArg HandRank.value, congrArg HandRank.mk⟩
    refine heq.trans ⟨fun h => ?_, congrArg packed⟩
    exact le_antisymm (not_lt.mp fun hlt' => (hgt.mpr hlt').ne' h)
      (not_lt.mp fun hlt' => (hlt.mpr hlt').ne h)

/-- A seven-high straight against a wheel with another ace and a king beside it. -/
theorem straight_against_wheel :
    ∃ x y, FollowsPoker [⟨8⟩, ⟨13⟩, ⟨18⟩, ⟨23⟩, ⟨4⟩, ⟨40⟩, ⟨41⟩] x ∧
      FollowsPoker [⟨48⟩, ⟨0⟩, ⟨5⟩, ⟨10⟩, ⟨15⟩, ⟨44⟩, ⟨49⟩] y ∧
      ((naiveEvaluator.rank7 [⟨8⟩, ⟨13⟩, ⟨18⟩, ⟨23⟩, ⟨4⟩, ⟨40⟩, ⟨41⟩]).value <
        (naiveEvaluator.rank7 [⟨48⟩, ⟨0⟩, ⟨5⟩, ⟨10⟩, ⟨15⟩, ⟨44⟩, ⟨49⟩]).value ↔ x < y) ∧
      (naiveEvaluator.rank7 [⟨8⟩, ⟨13⟩, ⟨18⟩, ⟨23⟩, ⟨4⟩, ⟨40⟩, ⟨41⟩] =
        naiveEvaluator.rank7 [⟨48⟩, ⟨0⟩, ⟨5⟩, ⟨10⟩, ⟨15⟩, ⟨44⟩, ⟨49⟩] ↔ x = y) :=
  rank7_follows_poker rfl rfl (by decide) (by decide)

/-- A six-high straight against a wheel that has an ace and two kings beside it. -/
example : (rank5Naive [⟨16⟩, ⟨13⟩, ⟨8⟩, ⟨4⟩, ⟨1⟩]).category = .straight ∧
    (naiveEvaluator.rank7 [⟨48⟩, ⟨0⟩, ⟨5⟩, ⟨10⟩, ⟨15⟩, ⟨44⟩, ⟨49⟩]).value <
      (rank5Naive [⟨16⟩, ⟨13⟩, ⟨8⟩, ⟨4⟩, ⟨1⟩]).value := by
  decide +kernel

end VibePoker.Core
