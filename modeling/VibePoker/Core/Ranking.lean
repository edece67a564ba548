import Mathlib.Algebra.BigOperators.Fin
import Mathlib.Data.List.Sort
import VibePoker.Core.Evaluator
import VibePoker.Core.PokerOrder

/-!
# The naive evaluator on five cards

Five cards with at most four of a rank have one of six shapes: how often the ranks occur
leaves nothing else. A flush and a straight have five different ranks, so that the shapes
with a rank in common decide the category alone. In each shape the evaluator packs the ranks
that decide in their order.

## Main definitions

* `Shape` — which ranks occur how often
* `packed` — a strength as a number of 32 bits

## Main results

* `rank5Naive_value` — the rank of five cards is their packed strength
* `packed_lt_iff` — packed strengths compare like strengths
-/

namespace VibePoker.Core

open VibePoker.Math

variable {hand : List Card}

/-! ## How often the ranks occur -/

/-- There are four suits. -/
theorem timesOf_le (hnodup : hand.Nodup) (r : Rank) : timesOf hand r ≤ 4 := by
  have hsuits : ((hand.filter fun card => card.rank = r).map Card.suit).Nodup := by
    refine (hnodup.filter _).map_on fun card hcard card' hcard' hsuit => ?_
    have hrank := (List.mem_filter.mp hcard).2
    have hrank' := (List.mem_filter.mp hcard').2
    simp only [decide_eq_true_eq] at hrank hrank'
    exact Card.ext_rank_suit (hrank.trans hrank'.symm) hsuit
  have hle := hsuits.length_le_card
  rw [List.length_map, Fintype.card_fin] at hle
  rw [timesOf, List.count_eq_countP, List.countP_map, List.countP_eq_length_filter]
  exact hle

@[simp] theorem mem_ranksOf {m : ℕ} {r : Rank} : r ∈ ranksOf hand m ↔ timesOf hand r = m := by
  simp [ranksOf]

/-- The ranks come from the highest down. -/
theorem pairwise_ranksOf (hand : List Card) (m : ℕ) :
    (ranksOf hand m).Pairwise fun r r' => r' < r := by
  refine List.Pairwise.filter _ (List.pairwise_reverse.mpr ?_)
  exact List.pairwise_lt_finRange 13

/-- Each card counts for its rank. -/
theorem sum_ranksOf (hle : ∀ r, timesOf hand r ≤ 4) :
    4 * (ranksOf hand 4).length + 3 * (ranksOf hand 3).length + 2 * (ranksOf hand 2).length +
      (ranksOf hand 1).length = hand.length := by
  have hsplit : ∀ ranks : List Rank, (ranks.map (timesOf hand)).sum =
      4 * (ranks.filter fun r => timesOf hand r = 4).length +
        3 * (ranks.filter fun r => timesOf hand r = 3).length +
        2 * (ranks.filter fun r => timesOf hand r = 2).length +
        (ranks.filter fun r => timesOf hand r = 1).length := by
    intro ranks
    induction ranks with
    | nil => rfl
    | cons r ranks ih =>
      have hr := hle r
      have hcases : timesOf hand r = 0 ∨ timesOf hand r = 1 ∨ timesOf hand r = 2 ∨
          timesOf hand r = 3 ∨ timesOf hand r = 4 := by omega
      rw [List.map_cons, List.sum_cons, ih]
      rcases hcases with h | h | h | h | h <;> simp [h] <;> omega
  have hsum : ((List.finRange 13).map (timesOf hand)).sum = hand.length := by
    have hcount := Multiset.sum_count_eq_card (s := Finset.univ)
      (m := (hand.map Card.rank : Multiset Rank)) fun r _ => Finset.mem_univ r
    simp only [Fin.sum_univ_def, Multiset.coe_card, List.length_map, Multiset.coe_count] at hcount
    exact hcount
  have hreverse : (((List.finRange 13).reverse).map (timesOf hand)).sum = hand.length := by
    rw [List.map_reverse, List.sum_reverse, hsum]
  rw [← hreverse, hsplit]
  rfl

/-- Which ranks occur four, three, two times and once. -/
inductive Shape (hand : List Card) : List Rank → List Rank → List Rank → List Rank → Prop
  | four (r k : Rank) : Shape hand [r] [] [] [k]
  | full (r p : Rank) : Shape hand [] [r] [p] []
  | three (r k₀ k₁ : Rank) : Shape hand [] [r] [] [k₀, k₁]
  | twoPair (hi lo k : Rank) : Shape hand [] [] [hi, lo] [k]
  | pair (r k₀ k₁ k₂ : Rank) : Shape hand [] [] [r] [k₀, k₁, k₂]
  | distinct (ranks : List Rank) (hlen : ranks.length = 5) : Shape hand [] [] [] ranks

/-- Five cards of a deck have one of the shapes. -/
theorem shape (hlen : hand.length = 5) (hnodup : hand.Nodup) :
    Shape hand (ranksOf hand 4) (ranksOf hand 3) (ranksOf hand 2) (ranksOf hand 1) := by
  have hsum := sum_ranksOf (timesOf_le hnodup)
  rw [hlen] at hsum
  have hfour : (ranksOf hand 4).length = 0 ∨ (ranksOf hand 4).length = 1 := by omega
  have hthree : (ranksOf hand 3).length = 0 ∨ (ranksOf hand 3).length = 1 := by omega
  -- the lengths of the four lists decide the shape, since they weigh five cards together
  generalize ranksOf hand 4 = l₄ at hsum hfour hthree
  generalize ranksOf hand 3 = l₃ at hsum hfour hthree
  generalize ranksOf hand 2 = l₂ at hsum
  generalize ranksOf hand 1 = l₁ at hsum
  rcases hfour with h₄ | h₄
  · obtain rfl := List.length_eq_zero_iff.mp h₄
    rcases hthree with h₃ | h₃
    · obtain rfl := List.length_eq_zero_iff.mp h₃
      have htwo : l₂.length = 0 ∨ l₂.length = 1 ∨ l₂.length = 2 := by omega
      rcases htwo with h₂ | h₂ | h₂
      · obtain rfl := List.length_eq_zero_iff.mp h₂
        exact .distinct l₁ (by omega)
      · obtain ⟨r, rfl⟩ := List.length_eq_one_iff.mp h₂
        obtain ⟨k₀, k₁, k₂, rfl⟩ := List.length_eq_three.mp (show l₁.length = 3 by omega)
        exact .pair r k₀ k₁ k₂
      · obtain ⟨hi, lo, rfl⟩ := List.length_eq_two.mp h₂
        obtain ⟨k, rfl⟩ := List.length_eq_one_iff.mp (show l₁.length = 1 by omega)
        exact .twoPair hi lo k
    · obtain ⟨r, rfl⟩ := List.length_eq_one_iff.mp h₃
      have htwo : l₂.length = 0 ∨ l₂.length = 1 := by omega
      rcases htwo with h₂ | h₂
      · obtain rfl := List.length_eq_zero_iff.mp h₂
        obtain ⟨k₀, k₁, rfl⟩ := List.length_eq_two.mp (show l₁.length = 2 by omega)
        exact .three r k₀ k₁
      · obtain ⟨p, rfl⟩ := List.length_eq_one_iff.mp h₂
        obtain rfl := List.length_eq_zero_iff.mp (show l₁.length = 0 by omega)
        exact .full r p
  · obtain ⟨r, rfl⟩ := List.length_eq_one_iff.mp h₄
    obtain rfl := List.length_eq_zero_iff.mp (show l₃.length = 0 by omega)
    obtain rfl := List.length_eq_zero_iff.mp (show l₂.length = 0 by omega)
    obtain ⟨k, rfl⟩ := List.length_eq_one_iff.mp (show l₁.length = 1 by omega)
    exact .four r k

/-! ## Counts of the evaluator -/

theorem rankCounts_eq (hand : List Card) : rankCounts (hand.map Card.rank) = timesOf hand := by
  have hfold : ∀ (ranks : List Rank) (counts : Rank → ℕ),
      ranks.foldl (fun counts r => Function.update counts r (counts r + 1)) counts =
        fun r => counts r + ranks.count r := by
    intro ranks
    induction ranks with
    | nil => exact fun counts => rfl
    | cons r ranks ih =>
      intro counts
      rw [List.foldl_cons, ih]
      funext r'
      rw [Function.update_apply, List.count_cons]
      by_cases h : r' = r
      · subst h
        simp only [if_true, beq_self_eq_true]
        omega
      · have hne : r ≠ r' := Ne.symm h
        simp [h, hne]
  rw [rankCounts, hfold]
  funext r
  exact Nat.zero_add _

/-- The search from the top finds the first of the ranks with a count. -/
theorem rposition_eq (hand : List Card) (m : ℕ) :
    rposition (timesOf hand) m = (ranksOf hand m).head? := by
  rw [rposition, ranksOf, List.head?_filter]

theorem twoPair_eq (hand : List Card) :
    twoPair (timesOf hand) =
      match ranksOf hand 2 with
      | hi :: lo :: _ => some (hi, lo)
      | _ => none := by
  have hpairs : (List.finRange 13).filter (fun r => timesOf hand r = 2) =
      (ranksOf hand 2).reverse := by
    rw [ranksOf, List.filter_reverse, List.reverse_reverse]
  simp only [twoPair, hpairs]
  rcases ranksOf hand 2 with - | ⟨hi, - | ⟨lo, rest⟩⟩
  · rfl
  · rfl
  · have hlen : (hi :: lo :: rest).reverse.length = rest.length + 2 := by simp
    rw [if_pos (by omega), hlen]
    simp [List.getD_eq_getElem?_getD]

/-! ## Sorted cards -/

/-- Cards that come from the highest rank down. -/
def SortedByRank (hand : List Card) : Prop := hand.Pairwise fun card card' => card'.rank ≤ card.rank

/-- Ranks from the highest down stand in one order only. -/
theorem eq_of_perm_of_down {ranks ranks' : List Rank} (hperm : ranks.Perm ranks')
    (h : ranks.Pairwise fun r r' => r' ≤ r) (h' : ranks'.Pairwise fun r r' => r' ≤ r) :
    ranks = ranks' :=
  hperm.eq_of_pairwise (fun _ _ _ _ hle hle' => le_antisymm hle' hle) h h'

/-- The ranks that are found once stand in the hand as they are listed. -/
theorem filter_eq_ranksOf (hsorted : SortedByRank hand) {p : Rank → Bool}
    (hp : ∀ r ∈ hand.map Card.rank, p r = true ↔ timesOf hand r = 1) :
    (hand.map Card.rank).filter p = ranksOf hand 1 := by
  have hdown : ((hand.map Card.rank).filter p).Pairwise fun r r' => r' ≤ r :=
    List.Pairwise.filter _ (List.pairwise_map.mpr hsorted)
  have hnodup : ((hand.map Card.rank).filter p).Nodup := by
    refine List.nodup_iff_count_le_one.mpr fun r => ?_
    by_cases hr : r ∈ (hand.map Card.rank).filter p
    · obtain ⟨hmem, hpr⟩ := List.mem_filter.mp hr
      rw [List.count_filter hpr]
      exact ((hp r hmem).mp hpr).le
    · rw [List.count_eq_zero_of_not_mem hr]
      exact Nat.zero_le 1
  have hones : (ranksOf hand 1).Nodup := (pairwise_ranksOf hand 1).imp fun h => h.ne'
  refine eq_of_perm_of_down ?_ hdown ((pairwise_ranksOf hand 1).imp fun h => h.le)
  refine (List.perm_ext_iff_of_nodup hnodup hones).mpr fun r => ?_
  rw [List.mem_filter, mem_ranksOf]
  constructor
  · exact fun ⟨hmem, hpr⟩ => (hp r hmem).mp hpr
  · intro hone
    have hmem : r ∈ hand.map Card.rank :=
      List.count_pos_iff.mp (by rw [← timesOf, hone]; exact Nat.one_pos)
    exact ⟨hmem, (hp r hmem).mpr hone⟩

/-! ## Straights and flushes -/

/-- How a straight stands in sorted cards: in the wheel the ace comes first. -/
def sortedRun (high : Rank) : List Rank := if high = 3 then [12, 3, 2, 1, 0] else run high

theorem sortedRun_perm : ∀ high : Rank, 3 ≤ high → (sortedRun high).Perm (run high) := by decide

theorem sortedRun_down :
    ∀ high : Rank, 3 ≤ high → (sortedRun high).Pairwise fun r r' => r' < r := by decide

theorem run_perm_inj : ∀ high high' : Rank, 3 ≤ high → 3 ≤ high' →
    (run high).Perm (run high') → high = high' := by decide +kernel

/-- The straights among sorted cards. -/
theorem straightHigh_eq_some (hsorted : SortedByRank hand) {high : Rank} :
    straightHigh hand = some high ↔ 3 ≤ high ∧ hand.map Card.rank = sortedRun high := by
  have hfound : ∀ {high}, straightHigh hand = some high →
      3 ≤ high ∧ (hand.map Card.rank).Perm (run high) := fun h => by
    simpa using List.find?_some h
  constructor
  · intro h
    obtain ⟨hle, hperm⟩ := hfound h
    refine ⟨hle, eq_of_perm_of_down (hperm.trans (sortedRun_perm high hle).symm)
      (List.pairwise_map.mpr hsorted) ((sortedRun_down high hle).imp fun h => h.le)⟩
  · rintro ⟨hle, hranks⟩
    have hperm : (hand.map Card.rank).Perm (run high) := hranks ▸ sortedRun_perm high hle
    cases hhigh : straightHigh hand with
    | none =>
      have hnone := List.find?_eq_none.mp hhigh high (by simp)
      simp [hle, hperm] at hnone
    | some high' =>
      obtain ⟨hle', hperm'⟩ := hfound hhigh
      rw [run_perm_inj high' high hle' hle (hperm'.symm.trans hperm)]

/-- Ranks that fall by four over five different cards fall by one each. -/
theorem isStraightRanks_iff {ranks : List Rank} (hlen : ranks.length = 5)
    (hdown : ranks.Pairwise fun r r' => r' ≤ r) :
    isStraightRanks ranks = true ↔ ∃ high, 4 ≤ high ∧ ranks = run high := by
  match ranks, hlen with
  | [r₀, r₁, r₂, r₃, r₄], _ =>
    simp only [List.pairwise_cons, List.forall_mem_cons, Fin.le_def] at hdown
    obtain ⟨⟨h₁, -⟩, ⟨h₂, -⟩, ⟨h₃, -⟩, ⟨h₄, -⟩, -⟩ := hdown
    simp only [isStraightRanks, Bool.and_eq_true, decide_eq_true_eq, run, List.cons.injEq,
      and_true, Fin.ext_iff, Fin.sub_def, Fin.le_def, ne_eq]
    constructor
    · rintro ⟨⟨⟨⟨hfour, h₀₁⟩, h₁₂⟩, h₂₃⟩, h₃₄⟩
      refine ⟨r₀, ?_, rfl, ?_, ?_, ?_, ?_⟩ <;> simp only [Fin.coe_ofNat_eq_mod] <;> omega
    · rintro ⟨high, hle, h⟩
      simp only [Fin.coe_ofNat_eq_mod] at hle h
      omega

/-- The evaluator finds the straights, the wheel apart from the others. -/
theorem straight_cases (hlen : hand.length = 5) (hsorted : SortedByRank hand) :
    let ranks := hand.map Card.rank
    ((isStraightRanks ranks || decide (ranks = [12, 3, 2, 1, 0])) = false ∧
        straightHigh hand = none) ∨
      ∃ high, (isStraightRanks ranks || decide (ranks = [12, 3, 2, 1, 0])) = true ∧
        straightHigh hand = some high ∧
        (if ranks = [12, 3, 2, 1, 0] then 3 else (ranks.getD 0 0).val) = high.val := by
  intro ranks
  have hrun := @isStraightRanks_iff ranks (by rw [List.length_map, hlen])
    (List.pairwise_map.mpr hsorted)
  -- the wheel is the one straight whose high card is not its first
  by_cases hwheel : ranks = [12, 3, 2, 1, 0]
  · refine Or.inr ⟨3, by simp [hwheel], ?_, by rw [if_pos hwheel]; rfl⟩
    exact (straightHigh_eq_some hsorted).mpr ⟨le_rfl, hwheel⟩
  · rw [if_neg hwheel]
    by_cases hstraight : isStraightRanks ranks = true
    · obtain ⟨high, hle, hranks⟩ := hrun.mp hstraight
      refine Or.inr ⟨high, by simp [hstraight], ?_, by rw [hranks]; rfl⟩
      have hne : high ≠ 3 := by
        rintro rfl
        exact absurd hle (by decide)
      refine (straightHigh_eq_some hsorted).mpr ⟨?_, ?_⟩
      · rw [Fin.le_def] at hle ⊢
        exact (show (3 : Rank).val ≤ (4 : Rank).val by decide).trans hle
      · exact hranks.trans (if_neg hne).symm
    · refine Or.inl ⟨by simp [hstraight, hwheel], ?_⟩
      cases hhigh : straightHigh hand with
      | none => rfl
      | some high =>
        obtain ⟨hle, hranks⟩ := (straightHigh_eq_some hsorted).mp hhigh
        by_cases hne : high = 3
        · subst hne
          exact absurd hranks hwheel
        · refine absurd (hrun.mpr ⟨high, ?_, hranks.trans (if_neg hne)⟩) hstraight
          rw [Fin.le_def] at hle ⊢
          rw [Fin.ext_iff] at hne
          simp only [Fin.coe_ofNat_eq_mod] at hle hne ⊢
          omega

/-- The evaluator finds the flushes. -/
theorem all_suits_iff (hlen : hand.length = 5) :
    ((hand.map Card.suit).all fun s => s = (hand.map Card.suit).getD 0 0) = true ↔
      IsFlush hand := by
  match hand, hlen with
  | card :: cards, _ =>
    simp only [List.all_eq_true, List.mem_map, forall_exists_index, and_imp,
      forall_apply_eq_imp_iff₂, decide_eq_true_eq]
    constructor
    · exact fun h => ⟨_, h⟩
    · rintro ⟨s, hs⟩ other hother
      rw [hs other hother]
      exact (hs card List.mem_cons_self).symm

/-- Cards of one suit have different ranks. -/
theorem timesOf_le_one_of_flush (hnodup : hand.Nodup) (hflush : IsFlush hand) (r : Rank) :
    timesOf hand r ≤ 1 := by
  obtain ⟨s, hs⟩ := hflush
  refine List.nodup_iff_count_le_one.mp (hnodup.map_on fun card hcard card' hcard' hrank => ?_) r
  exact Card.ext_rank_suit hrank ((hs card hcard).trans (hs card' hcard').symm)

/-- Cards in a row have different ranks. -/
theorem timesOf_le_one_of_straight {high : Rank} (h : straightHigh hand = some high) (r : Rank) :
    timesOf hand r ≤ 1 := by
  obtain ⟨hle, hperm⟩ : 3 ≤ high ∧ (hand.map Card.rank).Perm (run high) := by
    simpa using List.find?_some h
  have hnodup : (run high).Nodup :=
    (sortedRun_perm high hle).nodup_iff.mp ((sortedRun_down high hle).imp fun h => h.ne')
  exact List.nodup_iff_count_le_one.mp (hperm.nodup_iff.mpr hnodup) r

/-! ## The category -/

theorem category_eq {c : HandCategory} (hfits : c.Fits hand)
    (hnot : ∀ c' : HandCategory, c.index < c'.index → ¬ c'.Fits hand) : category hand = c := by
  have hsplit : HandCategory.all.reverse =
      (HandCategory.all.reverse.filter fun c' => c.index < c'.index) ++
        c :: (HandCategory.all.reverse.filter fun c' => c'.index < c.index) := by
    cases c <;> rfl
  have hhigher : (HandCategory.all.reverse.filter fun c' => c.index < c'.index).find?
      (fun c => c.Fits hand) = none := by
    refine List.find?_eq_none.mpr fun c' hc' => ?_
    have hlt := (List.mem_filter.mp hc').2
    simpa using hnot c' (by simpa using hlt)
  rw [category, hsplit, List.find?_append, hhigher, List.find?_cons_of_pos (by simpa using hfits)]
  rfl

section Times

variable (hle : ∀ r, timesOf hand r ≤ 4) {r : Rank}

include hle

theorem four_le_iff : 4 ≤ timesOf hand r ↔ r ∈ ranksOf hand 4 := by
  have := hle r
  rw [mem_ranksOf]
  omega

theorem three_le_iff : 3 ≤ timesOf hand r ↔ r ∈ ranksOf hand 4 ∨ r ∈ ranksOf hand 3 := by
  have := hle r
  rw [mem_ranksOf, mem_ranksOf]
  omega

theorem two_le_iff :
    2 ≤ timesOf hand r ↔ r ∈ ranksOf hand 4 ∨ r ∈ ranksOf hand 3 ∨ r ∈ ranksOf hand 2 := by
  have := hle r
  rw [mem_ranksOf, mem_ranksOf, mem_ranksOf]
  omega

/-- Each rank of a hand is listed. -/
theorem mem_ranksOf_of_mem (h : r ∈ hand.map Card.rank) :
    r ∈ ranksOf hand 4 ∨ r ∈ ranksOf hand 3 ∨ r ∈ ranksOf hand 2 ∨ r ∈ ranksOf hand 1 := by
  have hpos : 0 < timesOf hand r := List.count_pos_iff.mpr h
  have := hle r
  simp only [mem_ranksOf]
  omega

end Times

/-! ## Packing -/

/-- A strength as a number: the category in the upper four of 32 bits, and the ranks that
decide behind it, four bits each. -/
def packed (x : ℕ ×ₗ List ℕ) : ℕ := (ofLex x).1 * 2 ^ 28 + fromDigits 16 (ofLex x).2

theorem rank_lt (r : Rank) : r.val < 2 ^ 4 := r.isLt.trans (by decide)

theorem rank_digits (ranks : List Rank) : ∀ d ∈ ranks.map Fin.val, d < 16 := by
  intro d hd
  obtain ⟨r, -, rfl⟩ := List.mem_map.mp hd
  exact rank_lt r

/-- There is room for seven ranks. -/
theorem fromDigits_lt_of_le {ranks : List Rank} (hlen : ranks.length ≤ 7) :
    fromDigits 16 (ranks.map Fin.val) < 2 ^ 28 := by
  refine (fromDigits_lt (rank_digits ranks)).trans_le ?_
  rw [List.length_map]
  exact (Nat.pow_le_pow_right (by decide) hlen).trans_eq (by norm_num)

/-- Up to seven ranks stand behind the category. -/
theorem or_fromDigits (c : ℕ) {ranks : List Rank} (hlen : ranks.length ≤ 7) :
    c * 2 ^ 28 ||| fromDigits 16 (ranks.map Fin.val) =
      c * 2 ^ 28 + fromDigits 16 (ranks.map Fin.val) :=
  or_eq_add c (fromDigits_lt_of_le hlen)

theorem or_two (a b : Rank) : a.val <<< 4 ||| b.val = fromDigits 16 [a.val, b.val] := by
  rw [Nat.shiftLeft_eq, or_eq_add a.val (rank_lt b)]
  simp [fromDigits]

theorem or_three (a b c : Rank) :
    a.val <<< 8 ||| (b.val <<< 4 ||| c.val) = fromDigits 16 [a.val, b.val, c.val] := by
  have hlt : fromDigits 16 [b.val, c.val] < 2 ^ 8 :=
    (fromDigits_lt (rank_digits [b, c])).trans_eq (by norm_num)
  rw [or_two, Nat.shiftLeft_eq, or_eq_add a.val hlt]
  simp [fromDigits]

theorem or_four (a b c d : Rank) :
    a.val <<< 12 ||| (b.val <<< 8 ||| (c.val <<< 4 ||| d.val)) =
      fromDigits 16 [a.val, b.val, c.val, d.val] := by
  have hlt : fromDigits 16 [b.val, c.val, d.val] < 2 ^ 12 :=
    (fromDigits_lt (rank_digits [b, c, d])).trans_eq (by norm_num)
  rw [or_three, Nat.shiftLeft_eq, or_eq_add a.val hlt]
  simp [fromDigits]

/-- A category with two ranks behind it. -/
theorem or_pair (c : ℕ) (a b : Rank) :
    c * 2 ^ 28 ||| a.val <<< 4 ||| b.val = c * 2 ^ 28 + fromDigits 16 [a.val, b.val] := by
  rw [Nat.or_assoc, or_two]
  exact @or_fromDigits c [a, b] (by simp)

theorem or_triple (k : ℕ) (a b c : Rank) :
    k * 2 ^ 28 ||| a.val <<< 8 ||| (b.val <<< 4 ||| c.val) =
      k * 2 ^ 28 + fromDigits 16 [a.val, b.val, c.val] := by
  rw [Nat.or_assoc, or_three]
  exact @or_fromDigits k [a, b, c] (by simp)

theorem or_quadruple (k : ℕ) (a b c d : Rank) :
    k * 2 ^ 28 ||| a.val <<< 12 ||| (b.val <<< 8 ||| c.val <<< 4 ||| d.val) =
      k * 2 ^ 28 + fromDigits 16 [a.val, b.val, c.val, d.val] := by
  rw [Nat.or_assoc, Nat.or_assoc (b.val <<< 8), or_four]
  exact @or_fromDigits k [a, b, c, d] (by simp)

/-- The kickers of five ranks are these ranks. -/
theorem tiebreakKickers_eq {ranks : List Rank} (hlen : ranks.length = 5) :
    tiebreakKickers ranks 5 = fromDigits 16 (ranks.map Fin.val) := by
  have hfold : ∀ (ranks : List Rank) (acc : ℕ),
      ranks.foldl (fun acc r => acc <<< 4 ||| r.val) acc =
        acc * 16 ^ ranks.length + fromDigits 16 (ranks.map Fin.val) := by
    intro ranks
    induction ranks with
    | nil => intro acc; simp [fromDigits]
    | cons r ranks ih =>
      intro acc
      rw [List.foldl_cons, ih, Nat.shiftLeft_eq, or_eq_add acc (rank_lt r), List.map_cons,
        fromDigits, List.length_map, List.length_cons]
      ring
  rw [tiebreakKickers, List.take_of_length_le hlen.le, hfold, Nat.zero_mul, Nat.zero_add]

/-! ## Five sorted cards -/

/-- How many ranks decide between hands of a category. -/
def HandCategory.rankCount : HandCategory → ℕ
  | .straight | .straightFlush => 1
  | .fourOfAKind | .fullHouse => 2
  | .threeOfAKind | .twoPair => 3
  | .onePair => 4
  | .flush | .highCard => 5

/-- The category and the ranks that decide, as the evaluator packs them. -/
structure Ranked (hand : List Card) (c : HandCategory) (ranks : List Rank) : Prop where
  category_eq : category hand = c
  deciding_eq : decidingRanks hand = ranks
  length_eq : ranks.length = c.rankCount
  value_eq : (rankSorted hand).value = c.index * 2 ^ 28 + fromDigits 16 (ranks.map Fin.val)

/-- A hand that has a rank twice is no flush and no straight. -/
theorem plain_of_two_le (hlen : hand.length = 5) (hnodup : hand.Nodup)
    (hsorted : SortedByRank hand) {r : Rank} (htwo : 2 ≤ timesOf hand r) :
    ¬ IsFlush hand ∧ straightHigh hand = none ∧
      ((hand.map Card.suit).all fun s => s = (hand.map Card.suit).getD 0 0) = false ∧
      (isStraightRanks (hand.map Card.rank) ||
        decide (hand.map Card.rank = [12, 3, 2, 1, 0])) = false := by
  have hflush : ¬ IsFlush hand := fun h => by
    have := timesOf_le_one_of_flush hnodup h r
    omega
  refine ⟨hflush, ?_, ?_, ?_⟩
  · cases hhigh : straightHigh hand with
    | none => rfl
    | some high =>
      have := timesOf_le_one_of_straight hhigh r
      omega
  · rw [← Bool.not_eq_true, all_suits_iff hlen]
    exact hflush
  · obtain ⟨hstraight, -⟩ | ⟨high, -, hhigh, -⟩ := straight_cases hlen hsorted
    · exact hstraight
    · have := timesOf_le_one_of_straight hhigh r
      omega

/-- The ranks that are not among those found more often are the kickers. -/
theorem kickers_eq (hle : ∀ r, timesOf hand r ≤ 4) (hsorted : SortedByRank hand)
    {p : Rank → Bool} (hp : ∀ r, p r = true ↔
      r ∉ ranksOf hand 4 ∧ r ∉ ranksOf hand 3 ∧ r ∉ ranksOf hand 2) :
    (hand.map Card.rank).filter p = ranksOf hand 1 := by
  refine filter_eq_ranksOf hsorted fun r hr => ?_
  have hlisted := mem_ranksOf_of_mem hle hr
  rw [hp]
  simp only [mem_ranksOf] at hlisted ⊢
  omega

section Shapes

variable (hlen : hand.length = 5) (hnodup : hand.Nodup) (hsorted : SortedByRank hand)

include hlen hnodup hsorted

theorem ranked_four {r k : Rank} (h₄ : ranksOf hand 4 = [r]) (h₃ : ranksOf hand 3 = [])
    (h₂ : ranksOf hand 2 = []) (h₁ : ranksOf hand 1 = [k]) :
    Ranked hand .fourOfAKind [r, k] := by
  have hle := timesOf_le hnodup
  have hr : timesOf hand r = 4 := mem_ranksOf.mp (h₄ ▸ List.mem_singleton_self r)
  obtain ⟨hflush, hhigh, hsuits, hstraight⟩ := plain_of_two_le hlen hnodup hsorted
    (show 2 ≤ timesOf hand r by omega)
  have hcategory : category hand = .fourOfAKind := by
    refine category_eq ⟨r, hr.ge⟩ fun c hc hfits => ?_
    cases c <;> simp [HandCategory.index] at hc
    simp [HandCategory.Fits, hhigh] at hfits
  have hkickers := kickers_eq hle hsorted (p := fun x => x ≠ r) fun x => by simp [h₄, h₃, h₂]
  have hkicker : (hand.map Card.rank).find? (fun x => decide (x ≠ r)) = some k := by
    rw [← List.head?_filter, hkickers, h₁]
    rfl
  refine ⟨hcategory, ?_, rfl, ?_⟩
  · simp [decidingRanks, hcategory, byMultiplicity, h₄, h₃, h₂, h₁]
  · simp only [rankSorted, hsuits, hstraight, rankCounts_eq, fourOfAKind, rposition_eq, h₄,
      List.head?_cons, hkicker]
    exact or_pair 7 r k

theorem ranked_full {r p : Rank} (h₄ : ranksOf hand 4 = []) (h₃ : ranksOf hand 3 = [r])
    (h₂ : ranksOf hand 2 = [p]) (h₁ : ranksOf hand 1 = []) : Ranked hand .fullHouse [r, p] := by
  have hle := timesOf_le hnodup
  have hr : timesOf hand r = 3 := mem_ranksOf.mp (h₃ ▸ List.mem_singleton_self r)
  have hp : timesOf hand p = 2 := mem_ranksOf.mp (h₂ ▸ List.mem_singleton_self p)
  obtain ⟨hflush, hhigh, hsuits, hstraight⟩ := plain_of_two_le hlen hnodup hsorted hp.ge
  have hcategory : category hand = .fullHouse := by
    refine category_eq ⟨r, p, ?_, hr.ge, hp.ge⟩ fun c hc hfits => ?_
    · rintro rfl
      omega
    · cases c <;> simp [HandCategory.index] at hc <;>
        simp [HandCategory.Fits, four_le_iff hle, h₄, hhigh] at hfits
  refine ⟨hcategory, ?_, rfl, ?_⟩
  · simp [decidingRanks, hcategory, byMultiplicity, h₄, h₃, h₂, h₁]
  · simp only [rankSorted, hsuits, hstraight, rankCounts_eq, fourOfAKind, fullHouse, rposition_eq,
      h₄, h₃, h₂, List.head?_nil, List.head?_cons]
    exact or_pair 6 r p

theorem ranked_three {r k₀ k₁ : Rank} (h₄ : ranksOf hand 4 = []) (h₃ : ranksOf hand 3 = [r])
    (h₂ : ranksOf hand 2 = []) (h₁ : ranksOf hand 1 = [k₀, k₁]) :
    Ranked hand .threeOfAKind [r, k₀, k₁] := by
  have hle := timesOf_le hnodup
  have hr : timesOf hand r = 3 := mem_ranksOf.mp (h₃ ▸ List.mem_singleton_self r)
  obtain ⟨hflush, hhigh, hsuits, hstraight⟩ := plain_of_two_le hlen hnodup hsorted
    (show 2 ≤ timesOf hand r by omega)
  have hcategory : category hand = .threeOfAKind := by
    refine category_eq ⟨r, hr.ge⟩ fun c hc hfits => ?_
    cases c <;> simp [HandCategory.index] at hc <;>
      simp [HandCategory.Fits, four_le_iff hle, three_le_iff hle, two_le_iff hle, h₄, h₃, h₂,
        hflush, hhigh] at hfits
  have hkickers := kickers_eq hle hsorted (p := fun x => x ≠ r) fun x => by simp [h₄, h₃, h₂]
  refine ⟨hcategory, ?_, rfl, ?_⟩
  · simp [decidingRanks, hcategory, byMultiplicity, h₄, h₃, h₂, h₁]
  · simp only [rankSorted, hsuits, hstraight, rankCounts_eq, fourOfAKind, fullHouse, threeOfAKind,
      rposition_eq, h₄, h₃, h₂, List.head?_nil, List.head?_cons, hkickers, h₁]
    exact or_triple 3 r k₀ k₁

theorem ranked_twoPair {hi lo k : Rank} (h₄ : ranksOf hand 4 = []) (h₃ : ranksOf hand 3 = [])
    (h₂ : ranksOf hand 2 = [hi, lo]) (h₁ : ranksOf hand 1 = [k]) :
    Ranked hand .twoPair [hi, lo, k] := by
  have hle := timesOf_le hnodup
  have hhi : timesOf hand hi = 2 := mem_ranksOf.mp (h₂ ▸ List.mem_cons_self)
  have hlo : timesOf hand lo = 2 := mem_ranksOf.mp (h₂ ▸ List.mem_cons_of_mem _ List.mem_cons_self)
  have hne : hi ≠ lo := by
    have hdown := pairwise_ranksOf hand 2
    rw [h₂] at hdown
    exact ((List.pairwise_cons.mp hdown).1 lo List.mem_cons_self).ne'
  obtain ⟨hflush, hhigh, hsuits, hstraight⟩ := plain_of_two_le hlen hnodup hsorted hhi.ge
  have hcategory : category hand = .twoPair := by
    refine category_eq ⟨hi, lo, hne, hhi.ge, hlo.ge⟩ fun c hc hfits => ?_
    cases c <;> simp [HandCategory.index] at hc <;>
      simp [HandCategory.Fits, four_le_iff hle, three_le_iff hle, h₄, h₃, hflush, hhigh] at hfits
  have hkickers := kickers_eq hle hsorted (p := fun x => decide (x ≠ hi) && decide (x ≠ lo))
    fun x => by simp [h₄, h₃, h₂]
  have hkicker : (hand.map Card.rank).find? (fun x => decide (x ≠ hi) && decide (x ≠ lo)) =
      some k := by
    rw [← List.head?_filter, hkickers, h₁]
    rfl
  refine ⟨hcategory, ?_, rfl, ?_⟩
  · simp [decidingRanks, hcategory, byMultiplicity, h₄, h₃, h₂, h₁]
  · simp only [rankSorted, hsuits, hstraight, rankCounts_eq, fourOfAKind, fullHouse, threeOfAKind,
      twoPair_eq, rposition_eq, h₄, h₃, h₂, List.head?_nil, hkicker]
    change 2 * 2 ^ 28 ||| hi.val <<< 8 ||| lo.val <<< 4 ||| k.val = _
    rw [Nat.or_assoc]
    exact or_triple 2 hi lo k

theorem ranked_pair {r k₀ k₁ k₂ : Rank} (h₄ : ranksOf hand 4 = []) (h₃ : ranksOf hand 3 = [])
    (h₂ : ranksOf hand 2 = [r]) (h₁ : ranksOf hand 1 = [k₀, k₁, k₂]) :
    Ranked hand .onePair [r, k₀, k₁, k₂] := by
  have hle := timesOf_le hnodup
  have hr : timesOf hand r = 2 := mem_ranksOf.mp (h₂ ▸ List.mem_singleton_self r)
  obtain ⟨hflush, hhigh, hsuits, hstraight⟩ := plain_of_two_le hlen hnodup hsorted hr.ge
  have hcategory : category hand = .onePair := by
    refine category_eq ⟨r, hr.ge⟩ fun c hc hfits => ?_
    cases c <;> simp [HandCategory.index] at hc <;>
      simp [HandCategory.Fits, four_le_iff hle, three_le_iff hle, two_le_iff hle, h₄, h₃, h₂,
        hflush, hhigh] at hfits
  have hkickers := kickers_eq hle hsorted (p := fun x => x ≠ r) fun x => by simp [h₄, h₃, h₂]
  refine ⟨hcategory, ?_, rfl, ?_⟩
  · simp [decidingRanks, hcategory, byMultiplicity, h₄, h₃, h₂, h₁]
  · simp only [rankSorted, hsuits, hstraight, rankCounts_eq, fourOfAKind, fullHouse, threeOfAKind,
      onePair, twoPair_eq, rposition_eq, h₄, h₃, h₂, List.head?_nil, List.head?_cons, hkickers, h₁]
    exact or_quadruple 1 r k₀ k₁ k₂

theorem ranked_distinct (h₄ : ranksOf hand 4 = []) (h₃ : ranksOf hand 3 = [])
    (h₂ : ranksOf hand 2 = []) : ∃ c ranks, Ranked hand c ranks := by
  have hle := timesOf_le hnodup
  have hranks : hand.map Card.rank = ranksOf hand 1 := by
    have hkickers := kickers_eq hle hsorted (p := fun _ => true) fun x => by simp [h₄, h₃, h₂]
    rwa [List.filter_true] at hkickers
  have hfive : (hand.map Card.rank).length = 5 := by rw [List.length_map, hlen]
  have hmultiplicity : byMultiplicity hand = hand.map Card.rank := by
    simp [byMultiplicity, h₄, h₃, h₂, hranks]
  -- no rank is found twice, so that the straights and the flushes decide
  have hother : ∀ c : HandCategory, c.Fits hand →
      c = .straightFlush ∨ c = .flush ∨ c = .straight ∨ c = .highCard := by
    intro c hfits
    cases c <;> simp [HandCategory.Fits, four_le_iff hle, three_le_iff hle, two_le_iff hle, h₄, h₃,
      h₂] at hfits ⊢
  have hsuits := all_suits_iff hlen
  obtain ⟨hstraight, hhigh⟩ | ⟨high, hstraight, hhigh, hvalue⟩ := straight_cases hlen hsorted
  · by_cases hflush : IsFlush hand
    · rw [iff_true_right hflush] at hsuits
      have hcategory : category hand = .flush := by
        refine category_eq hflush fun c hc hfits => ?_
        rcases hother c hfits with rfl | rfl | rfl | rfl <;> simp [HandCategory.index] at hc
        simp [HandCategory.Fits, hhigh] at hfits
      refine ⟨.flush, hand.map Card.rank, hcategory, ?_, hfive, ?_⟩
      · simp only [decidingRanks, hcategory, hmultiplicity]
      · simp only [rankSorted, hsuits, hstraight, rankCounts_eq, fourOfAKind, fullHouse,
          rposition_eq, h₄, h₃, List.head?_nil, tiebreakKickers_eq hfive]
        exact or_fromDigits 5 (by omega)
    · rw [iff_false_right hflush, Bool.not_eq_true] at hsuits
      have hcategory : category hand = .highCard := by
        refine category_eq trivial fun c hc hfits => ?_
        rcases hother c hfits with rfl | rfl | rfl | rfl <;> simp [HandCategory.index] at hc
        · exact hflush hfits.2
        · exact hflush hfits
        · simp [HandCategory.Fits, hhigh] at hfits
      refine ⟨.highCard, hand.map Card.rank, hcategory, ?_, hfive, ?_⟩
      · simp only [decidingRanks, hcategory, hmultiplicity]
      · simp only [rankSorted, hsuits, hstraight, rankCounts_eq, fourOfAKind, fullHouse,
          threeOfAKind, twoPair_eq, onePair, rposition_eq, h₄, h₃, h₂, List.head?_nil,
          tiebreakKickers_eq hfive]
        exact (Nat.zero_add _).symm
  · have hor : ∀ k, k * 2 ^ 28 ||| high.val = k * 2 ^ 28 + fromDigits 16 [high.val] := by
      intro k
      have hone : fromDigits 16 [high.val] = high.val := by simp [fromDigits]
      have hpacked := @or_fromDigits k [high] (by simp)
      rw [List.map_singleton, hone] at hpacked
      rw [hone, hpacked]
    by_cases hflush : IsFlush hand
    · rw [iff_true_right hflush] at hsuits
      have hcategory : category hand = .straightFlush := by
        refine category_eq ⟨by rw [hhigh]; rfl, hflush⟩ fun c hc hfits => ?_
        rcases hother c hfits with rfl | rfl | rfl | rfl <;> simp [HandCategory.index] at hc
      refine ⟨.straightFlush, [high], hcategory, ?_, rfl, ?_⟩
      · simp only [decidingRanks, hcategory, hhigh, Option.toList]
      · simp only [rankSorted, hsuits, hstraight, hvalue]
        exact hor 8
    · rw [iff_false_right hflush, Bool.not_eq_true] at hsuits
      have hcategory : category hand = .straight := by
        refine category_eq (by rw [HandCategory.Fits, hhigh]; rfl) fun c hc hfits => ?_
        rcases hother c hfits with rfl | rfl | rfl | rfl <;> simp [HandCategory.index] at hc
        · exact hflush hfits.2
        · exact hflush hfits
      refine ⟨.straight, [high], hcategory, ?_, rfl, ?_⟩
      · simp only [decidingRanks, hcategory, hhigh, Option.toList]
      · simp only [rankSorted, hsuits, hstraight, rankCounts_eq, fourOfAKind, fullHouse,
          rposition_eq, h₄, h₃, List.head?_nil, hvalue]
        exact hor 4

/-- Five sorted cards are ranked by their category and the ranks that decide. -/
theorem ranked : ∃ c ranks, Ranked hand c ranks := by
  have hshape := shape hlen hnodup
  generalize h₄ : ranksOf hand 4 = l₄ at hshape
  generalize h₃ : ranksOf hand 3 = l₃ at hshape
  generalize h₂ : ranksOf hand 2 = l₂ at hshape
  generalize h₁ : ranksOf hand 1 = l₁ at hshape
  cases hshape with
  | four r k => exact ⟨_, _, ranked_four hlen hnodup hsorted h₄ h₃ h₂ h₁⟩
  | full r p => exact ⟨_, _, ranked_full hlen hnodup hsorted h₄ h₃ h₂ h₁⟩
  | three r k₀ k₁ => exact ⟨_, _, ranked_three hlen hnodup hsorted h₄ h₃ h₂ h₁⟩
  | twoPair hi lo k => exact ⟨_, _, ranked_twoPair hlen hnodup hsorted h₄ h₃ h₂ h₁⟩
  | pair r k₀ k₁ k₂ => exact ⟨_, _, ranked_pair hlen hnodup hsorted h₄ h₃ h₂ h₁⟩
  | distinct ranks => exact ranked_distinct hlen hnodup hsorted h₄ h₃ h₂

end Shapes

/-! ## Five cards -/

theorem sortedByRank_sortByRank (hand : List Card) : SortedByRank (sortByRank hand) := by
  have : Std.Total fun a b : Card => b.rank ≤ a.rank := ⟨fun a b => le_total b.rank a.rank⟩
  have : IsTrans Card fun a b => b.rank ≤ a.rank := ⟨fun _ _ _ hab hbc => hbc.trans hab⟩
  exact List.pairwise_insertionSort _ hand

/-- The strength of five cards and the number that the evaluator packs it in. -/
theorem rank5Naive_packs (hlen : hand.length = 5) (hnodup : hand.Nodup) :
    ∃ (c : HandCategory) (ranks : List Rank), ranks.length = c.rankCount ∧
      strength hand = toLex (c.index, ranks.map Fin.val) ∧
      (rank5Naive hand).value = c.index * 2 ^ 28 + fromDigits 16 (ranks.map Fin.val) := by
  have hperm : (sortByRank hand).Perm hand := List.perm_insertionSort _ hand
  obtain ⟨c, ranks, hcategory, hdeciding, hlength, hvalue⟩ := ranked (hperm.length_eq.trans hlen)
    (hperm.nodup_iff.mpr hnodup) (sortedByRank_sortByRank hand)
  refine ⟨c, ranks, hlength, ?_, hvalue⟩
  rw [← strength_perm hperm, strength, hcategory, hdeciding]

theorem rank5Naive_value (hlen : hand.length = 5) (hnodup : hand.Nodup) :
    (rank5Naive hand).value = packed (strength hand) := by
  obtain ⟨c, ranks, -, hstrength, hvalue⟩ := rank5Naive_packs hlen hnodup
  rw [hstrength, hvalue]
  rfl

theorem index_inj {c c' : HandCategory} (h : c.index = c'.index) : c = c' := by
  cases c <;> cases c' <;> first | rfl | cases h

/-- Packed strengths of five cards compare like the strengths. -/
theorem packed_lt_iff {hand hand' : List Card} (hlen : hand.length = 5) (hnodup : hand.Nodup)
    (hlen' : hand'.length = 5) (hnodup' : hand'.Nodup) :
    packed (strength hand) < packed (strength hand') ↔ strength hand < strength hand' := by
  obtain ⟨c, ranks, hlength, hstrength, -⟩ := rank5Naive_packs hlen hnodup
  obtain ⟨c', ranks', hlength', hstrength', -⟩ := rank5Naive_packs hlen' hnodup'
  have hbound : ∀ (c : HandCategory) (ranks : List Rank), ranks.length = c.rankCount →
      fromDigits 16 (ranks.map Fin.val) < 2 ^ 28 := by
    intro c ranks hlength
    refine fromDigits_lt_of_le ?_
    rw [hlength]
    cases c <;> decide
  rw [hstrength, hstrength', Prod.Lex.toLex_lt_toLex]
  simp only [packed, ofLex_toLex]
  rw [add_lt_add_iff (hbound c ranks hlength) (hbound c' ranks' hlength')]
  refine or_congr_right (and_congr_right fun hindex => ?_)
  obtain rfl := index_inj hindex
  refine fromDigits_lt_iff ?_ (rank_digits ranks) (rank_digits ranks')
  rw [List.length_map, List.length_map, hlength, hlength']

end VibePoker.Core
