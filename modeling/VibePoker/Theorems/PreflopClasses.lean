import VibePoker.Theorems.SuitSymmetry

/-!
# The preflop classes are the hole cards up to suits

The index of a class is a bucket below 169. Two pairs of hole cards are in one bucket exactly
when some exchange of the suits turns the one into the other, in whatever order the cards were
dealt: the buckets lose nothing but the names of the suits and the order. No bucket is empty.

## Main definitions

* `HoleCards` — two different cards, in the order in which they were dealt
* `HoleCards.Alike` — the same cards up to suits and order

## Main results

* `bucket_classifies` — the buckets are the hole cards up to suits
-/

namespace VibePoker.Core

namespace Card

/-- The card of a rank and a suit. -/
def new (rank : Rank) (suit : Suit) : Card := ⟨⟨rank * 4 + suit, by omega⟩⟩

@[simp] theorem new_rank (rank : Rank) (suit : Suit) : (new rank suit).rank = rank := by
  ext
  simp only [new, Card.rank]
  omega

@[simp] theorem new_suit (rank : Rank) (suit : Suit) : (new rank suit).suit = suit := by
  ext
  simp only [new, Card.suit]
  omega

end Card

end VibePoker.Core

namespace VibePoker.Abstraction

open VibePoker.Core

/-! ## The statement -/

/-- Two different cards, in the order in which they were dealt. -/
structure HoleCards where
  cards : Card × Card
  ne : cards.1 ≠ cards.2

namespace HoleCards

/-- Some exchange of the suits turns the one pair of cards into the other. -/
def Alike (hole hole' : HoleCards) : Prop :=
  ∃ σ : Equiv.Perm Suit,
    hole'.cards = Prod.map (Card.permuteSuits σ) (Card.permuteSuits σ) hole.cards ∨
      hole'.cards = Prod.map (Card.permuteSuits σ) (Card.permuteSuits σ) hole.cards.swap

/-- The bucket of two hole cards. -/
def bucket (hole : HoleCards) : Fin 169 :=
  ⟨(PreflopClass.fromHole hole.cards).index, PreflopClass.index_lt _⟩

end HoleCards

/-! ## Numbers and classes -/

namespace PreflopClass

/-- The non-pairs of one kind, from the aces down. -/
def nonPairs (kind : (high low : Rank) → low < high → PreflopClass) : List PreflopClass :=
  (List.finRange 13).reverse.flatMap fun high =>
    (List.finRange 13).reverse.filterMap fun low =>
      if h : low < high then some (kind high low h) else none

/-- All classes in the order of their numbers. -/
def all : List PreflopClass :=
  (List.finRange 13).reverse.map .pair ++ nonPairs .suited ++ nonPairs .offsuit

theorem mem_nonPairs (kind : (high low : Rank) → low < high → PreflopClass) {high low : Rank}
    (h : low < high) : kind high low h ∈ nonPairs kind := by
  refine List.mem_flatMap.mpr ⟨high, List.mem_reverse.mpr (List.mem_finRange high), ?_⟩
  exact List.mem_filterMap.mpr ⟨low, List.mem_reverse.mpr (List.mem_finRange low), dif_pos h⟩

theorem mem_all (c : PreflopClass) : c ∈ all := by
  rw [all, List.mem_append, List.mem_append]
  cases c with
  | pair rank =>
    exact Or.inl (Or.inl (List.mem_map_of_mem (List.mem_reverse.mpr (List.mem_finRange rank))))
  | suited high low lt => exact Or.inl (Or.inr (mem_nonPairs .suited lt))
  | offsuit high low lt => exact Or.inr (mem_nonPairs .offsuit lt)

/-- The classes are numbered without a gap. -/
theorem map_index_all : all.map index = List.range 169 := by decide +kernel

theorem index_injective : Function.Injective index := by
  intro c c' h
  have hnodup : (all.map index).Nodup := by
    rw [map_index_all]
    exact List.nodup_range
  exact List.inj_on_of_nodup_map hnodup (mem_all c) (mem_all c') h

theorem exists_index_eq {k : ℕ} (hk : k < 169) : ∃ c : PreflopClass, c.index = k := by
  have hmem : k ∈ all.map index := by
    rw [map_index_all]
    exact List.mem_range.mpr hk
  obtain ⟨c, -, hc⟩ := List.mem_map.mp hmem
  exact ⟨c, hc⟩

/-! ## Classes and cards -/

/-- The class of two cards of which the first is not lower. -/
theorem fromHole_eq_iff {first second first' second' : Card} (h : second.rank ≤ first.rank)
    (h' : second'.rank ≤ first'.rank) :
    fromHole (first, second) = fromHole (first', second') ↔
      first.rank = first'.rank ∧ second.rank = second'.rank ∧
        (second.rank < first.rank → (first.suit = second.suit ↔ first'.suit = second'.suit)) := by
  simp only [fromHole, if_pos h, if_pos h']
  by_cases hlt : second.rank < first.rank
  · by_cases hlt' : second'.rank < first'.rank
    · rw [dif_pos hlt, dif_pos hlt']
      by_cases hsuit : first.suit = second.suit <;> by_cases hsuit' : first'.suit = second'.suit <;>
        simp [hsuit, hsuit', hlt]
    · rw [dif_pos hlt, dif_neg hlt']
      have heq := le_antisymm h' (not_lt.mp hlt')
      refine iff_of_false (by split <;> simp) fun hall => hlt.ne ?_
      rw [hall.1, hall.2.1, heq]
  · have heq := le_antisymm h (not_lt.mp hlt)
    by_cases hlt' : second'.rank < first'.rank
    · rw [dif_neg hlt, dif_pos hlt']
      refine iff_of_false (by split <;> simp) fun hall => hlt'.ne ?_
      rw [← hall.1, ← hall.2.1, heq]
    · rw [dif_neg hlt, dif_neg hlt']
      have heq' := le_antisymm h' (not_lt.mp hlt')
      simp only [pair.injEq, heq, heq', lt_irrefl, false_implies, and_true, and_self]

end PreflopClass

/-- Two suits can be exchanged for two others if both are equal or both differ. -/
theorem exists_perm_suits {a b a' b' : Suit} (h : a = b ↔ a' = b') :
    ∃ σ : Equiv.Perm Suit, σ a = a' ∧ σ b = b' := by
  by_cases hab : a = b
  · subst hab
    exact ⟨Equiv.swap a a', Equiv.swap_apply_left a a', by rw [Equiv.swap_apply_left, h.mp rfl]⟩
  · have hne := mt h.mpr hab
    refine ⟨(Equiv.swap a a').trans (Equiv.swap (Equiv.swap a a' b) b'), ?_, ?_⟩
    · -- the second exchange leaves the first suit's image alone
      have hmoved : a' ≠ Equiv.swap a a' b := fun heq =>
        hab ((Equiv.swap a a').injective ((Equiv.swap_apply_left a a').trans heq))
      rw [Equiv.trans_apply, Equiv.swap_apply_left, Equiv.swap_apply_of_ne_of_ne hmoved hne]
    · rw [Equiv.trans_apply, Equiv.swap_apply_left]

namespace HoleCards

/-- The cards with the higher one first. -/
def sorted (hole : HoleCards) : HoleCards :=
  if hole.cards.2.rank ≤ hole.cards.1.rank then hole else ⟨hole.cards.swap, hole.ne.symm⟩

theorem sorted_cases (hole : HoleCards) :
    (hole.sorted.cards = hole.cards ∨ hole.sorted.cards = hole.cards.swap) ∧
      hole.sorted.cards.2.rank ≤ hole.sorted.cards.1.rank := by
  rw [sorted]
  split
  case isTrue h => exact ⟨Or.inl rfl, h⟩
  case isFalse h => exact ⟨Or.inr rfl, (not_le.mp h).le⟩

theorem fromHole_sorted (hole : HoleCards) :
    PreflopClass.fromHole hole.sorted.cards = PreflopClass.fromHole hole.cards := by
  rcases hole.sorted_cases.1 with h | h
  · rw [h]
  · rw [h]
    exact PreflopClass.fromHole_comm _ _

theorem fromHole_of_alike {hole hole' : HoleCards} (h : hole.Alike hole') :
    PreflopClass.fromHole hole.cards = PreflopClass.fromHole hole'.cards := by
  obtain ⟨σ, h | h⟩ := h
  · rw [h, fromHole_permuteSuits]
  · rw [h, fromHole_permuteSuits]
    exact PreflopClass.fromHole_comm _ _

theorem alike_of_sorted {hole hole' : HoleCards} {σ : Equiv.Perm Suit}
    (h : hole'.sorted.cards =
      Prod.map (Card.permuteSuits σ) (Card.permuteSuits σ) hole.sorted.cards) :
    hole.Alike hole' := by
  refine ⟨σ, ?_⟩
  rcases hole.sorted_cases.1 with heq | heq <;> rcases hole'.sorted_cases.1 with heq' | heq' <;>
    rw [heq, heq'] at h
  · exact Or.inl h
  · exact Or.inr (congrArg Prod.swap h)
  · exact Or.inr h
  · exact Or.inl (congrArg Prod.swap h)

theorem alike_of_fromHole {hole hole' : HoleCards}
    (h : PreflopClass.fromHole hole.cards = PreflopClass.fromHole hole'.cards) :
    hole.Alike hole' := by
  rw [← hole.fromHole_sorted, ← hole'.fromHole_sorted] at h
  obtain ⟨hfirst, hsecond, hsuits⟩ :=
    (PreflopClass.fromHole_eq_iff hole.sorted_cases.2 hole'.sorted_cases.2).mp h
  have hsame : hole.sorted.cards.1.suit = hole.sorted.cards.2.suit ↔
      hole'.sorted.cards.1.suit = hole'.sorted.cards.2.suit := by
    rcases hole.sorted_cases.2.lt_or_eq with hlt | heq
    · exact hsuits hlt
    · -- two cards of one rank have different suits
      refine iff_of_false (fun hsuit => ?_) fun hsuit => ?_
      · exact hole.sorted.ne (Card.ext_rank_suit heq.symm hsuit)
      · refine hole'.sorted.ne (Card.ext_rank_suit ?_ hsuit)
        rw [← hfirst, ← hsecond, heq]
  obtain ⟨σ, hσfirst, hσsecond⟩ := exists_perm_suits hsame
  refine alike_of_sorted (σ := σ) (Prod.ext ?_ ?_)
  · refine Card.ext_rank_suit ?_ ?_
    · rw [Prod.map_fst, permuteSuits_rank, hfirst]
    · rw [Prod.map_fst, permuteSuits_suit, hσfirst]
  · refine Card.ext_rank_suit ?_ ?_
    · rw [Prod.map_snd, permuteSuits_rank, hsecond]
    · rw [Prod.map_snd, permuteSuits_suit, hσsecond]

end HoleCards

/-! ## Cards of a class -/

/-- Each class has cards. -/
theorem exists_fromHole_eq (c : PreflopClass) :
    ∃ hole : HoleCards, PreflopClass.fromHole hole.cards = c := by
  have hsuits : ∀ rank rank', Card.new rank 0 ≠ .new rank' 1 := fun rank rank' h =>
    absurd (congrArg Card.suit h) (by rw [Card.new_suit, Card.new_suit]; decide)
  cases c with
  | pair rank =>
    exact ⟨⟨(.new rank 0, .new rank 1), hsuits _ _⟩, by simp [PreflopClass.fromHole]⟩
  | suited high low lt =>
    refine ⟨⟨(.new high 0, .new low 0), fun h => lt.ne' ?_⟩, ?_⟩
    · simpa using congrArg Card.rank h
    · simp [PreflopClass.fromHole, lt, lt.le]
  | offsuit high low lt =>
    exact ⟨⟨(.new high 0, .new low 1), hsuits _ _⟩, by simp [PreflopClass.fromHole, lt, lt.le]⟩

/-- The buckets are the hole cards up to suits, and all of them are used. -/
theorem bucket_classifies :
    (∀ hole hole' : HoleCards, hole.bucket = hole'.bucket ↔ hole.Alike hole') ∧
      Function.Surjective HoleCards.bucket := by
  refine ⟨fun hole hole' => ⟨fun h => ?_, fun h => ?_⟩, fun k => ?_⟩
  · exact HoleCards.alike_of_fromHole (PreflopClass.index_injective (Fin.val_eq_of_eq h))
  · exact Fin.ext (congrArg PreflopClass.index (HoleCards.fromHole_of_alike h))
  · obtain ⟨c, hc⟩ := PreflopClass.exists_index_eq k.isLt
    obtain ⟨hole, rfl⟩ := exists_fromHole_eq c
    exact ⟨hole, Fin.ext hc⟩

end VibePoker.Abstraction
