import VibePoker.Game.Pots

/-!
# Pots without merged slices

While every folded seat is matched by a seat that is not folded, each slice of a
showdown has a seat that may win it, so the pots are the slices. What a seat wins
then lies between the chips that nobody else has matched and the chips that it has
matched itself.

## Main definitions

* `Matched` — no folded seat has committed more than all the others
* `slices` — the chips between successive levels, with the seats that reached them

## Main results

* `buildShowdownPots_eq_slices` — the pots of a matched showdown
* `awards_le`, `le_awards` — the bounds for what a seat wins
-/

namespace VibePoker.Game

open VibePoker.Core VibePoker.Math

variable {n : ℕ} {e : Engine}

/-- Every folded seat is matched by a contender. -/
def Matched (players : Fin n → PlayerState) : Prop :=
  ∀ j, (players j).status = .folded →
    ∃ k, (players k).stillIn ∧ (players j).totalCommitted ≤ (players k).totalCommitted

/-- The chips between successive levels, with the seats that may win them. -/
def slices (players : Fin n → PlayerState) (prev : ℕ) : List ℕ → List (ℕ × List (Fin n))
  | [] => []
  | level :: levels =>
    ((level - prev) * contributors players level, eligibleSeats players level) ::
      slices players level levels

section Slices

variable {players : Fin n → PlayerState}

/-- Each commitment level of a matched showdown is reached by a seat that may win. -/
theorem Matched.eligibleSeats_ne_nil (h : Matched players) {level : ℕ}
    (hlevel : level ∈ commitmentLevels players) : eligibleSeats players level ≠ [] := by
  obtain ⟨-, j, hj⟩ := (mem_commitmentLevels players).mp hlevel
  by_cases hfolded : (players j).status = .folded
  · obtain ⟨k, hin, hle⟩ := h j hfolded
    refine List.ne_nil_of_mem ((mem_eligibleSeats players).mpr ⟨hj ▸ hle, ?_⟩)
    intro hk
    simp [PlayerState.stillIn, hk] at hin
  · exact List.ne_nil_of_mem ((mem_eligibleSeats players).mpr ⟨hj.ge, hfolded⟩)

theorem buildPotsFrom_eq_slices {prev : ℕ} {levels : List ℕ} (result : List (ℕ × List (Fin n)))
    (hsorted : (prev :: levels).Pairwise (· < ·))
    (heligible : ∀ level ∈ levels, eligibleSeats players level ≠ []) :
    buildPotsFrom players prev levels result = result ++ slices players prev levels := by
  induction levels generalizing prev result with
  | nil => simp [buildPotsFrom, slices]
  | cons level levels ih =>
    obtain ⟨hprev, hrest⟩ := List.pairwise_cons.mp hsorted
    have hne := heligible level List.mem_cons_self
    obtain ⟨i, hi⟩ := List.exists_mem_of_ne_nil _ hne
    have hwidth : 0 < contributors players level :=
      Finset.card_pos.mpr ⟨i, by simpa using ((mem_eligibleSeats players).mp hi).1⟩
    have hthick : 0 < level - prev := Nat.sub_pos_of_lt (hprev level List.mem_cons_self)
    rw [buildPotsFrom]
    dsimp only
    rw [if_neg (Nat.mul_pos hthick hwidth).ne', if_neg hne, ih _ hrest fun l hl =>
      heligible l (List.mem_cons_of_mem _ hl), List.append_assoc, slices, List.singleton_append]

/-- The pots of a matched showdown are the slices. -/
theorem buildShowdownPots_eq_slices (h : Matched players) :
    buildShowdownPots players = slices players 0 (commitmentLevels players) := by
  rw [buildShowdownPots, buildPotsFrom_eq_slices [] (pairwise_commitmentLevels players)
    fun level hlevel => h.eligibleSeats_ne_nil hlevel, List.nil_append]

/-! ## The chips of the slices -/

theorem le_zero_or_mem_commitmentLevels {value : ℕ}
    (h : value = 0 ∨ ∃ i, (players i).totalCommitted = value) :
    value ≤ 0 ∨ value ∈ commitmentLevels players := by
  rw [mem_commitmentLevels]
  rcases Nat.eq_zero_or_pos value with hzero | hpos
  · exact Or.inl hzero.le
  · exact Or.inr ⟨hpos, h.resolve_left hpos.ne'⟩

/-- The slices hold everything that was committed. -/
theorem sum_layers_committed :
    (layers (fun j => (players j).totalCommitted) 0 (commitmentLevels players)).sum =
      ∑ j, (players j).totalCommitted := by
  rw [sum_layers _ 0 _ (pairwise_commitmentLevels players) fun j =>
    le_zero_or_mem_commitmentLevels (Or.inr ⟨j, rfl⟩)]
  simp only [Nat.sub_zero]

/-- Up to the commitment of a seat, or up to nothing, the slices hold what each seat
has committed up to there. -/
theorem sum_layers_min {cap : ℕ}
    (hcap : cap = 0 ∨ ∃ i, (players i).totalCommitted = cap) :
    (layers (fun j => min (players j).totalCommitted cap) 0 (commitmentLevels players)).sum =
      ∑ j, min (players j).totalCommitted cap := by
  rw [sum_layers _ 0 _ (pairwise_commitmentLevels players) fun j =>
    le_zero_or_mem_commitmentLevels ?_]
  · simp only [Nat.sub_zero]
  · rcases min_choice (players j).totalCommitted cap with hmin | hmin
    · rw [hmin]
      exact Or.inr ⟨j, rfl⟩
    · rw [hmin]
      exact hcap

/-- Below the cap, capping does not change who reaches a level. -/
theorem card_min_of_le {level cap : ℕ} (h : level ≤ cap) :
    (Finset.univ.filter fun j => level ≤ min (players j).totalCommitted cap).card =
      contributors players level := by
  rw [contributors]
  congr 1
  ext j
  simp only [Finset.mem_filter, Finset.mem_univ, true_and]
  omega

/-! ## What a seat wins -/

variable {board : List Card} {awards : List (Fin n → ℤ)} {prev : ℕ} {levels : List ℕ}

theorem PaysPot.le {pot : ℕ × List (Fin n)} {award : Fin n → ℤ}
    (h : PaysPot e board players pot award) (i : Fin n) : award i ≤ pot.1 := by
  rw [← h.total_eq]
  exact Finset.single_le_sum (fun j _ => h.nonneg j) (Finset.mem_univ i)

/-- A seat wins no more than the slices up to its own commitment. -/
theorem awards_le (i : Fin n)
    (h : List.Forall₂ (PaysPot e board players) (slices players prev levels) awards) :
    (awards.map fun award => award i).sum ≤
      (layers (fun j => min (players j).totalCommitted (players i).totalCommitted) prev
        levels).sum := by
  induction levels generalizing prev awards with
  | nil =>
    cases h
    simp [layers]
  | cons level levels ih =>
    cases h with
    | cons hpays hrest =>
      rename_i award awards
      have hlater := ih hrest
      have hhead : award i ≤ ((level - prev) * (Finset.univ.filter fun j =>
          level ≤ min (players j).totalCommitted (players i).totalCommitted).card : ℕ) := by
        by_cases hreach : level ≤ (players i).totalCommitted
        · rw [card_min_of_le hreach]
          exact hpays.le i
        · -- the seat may not win a slice that it has not reached
          rw [hpays.eq_zero i fun hi => ?_]
          · exact Int.natCast_nonneg _
          · exact hreach ((mem_eligibleSeats players).mp (List.mem_filter.mp hi).1).1
      rw [layers, List.map_cons, List.sum_cons, List.sum_cons, Nat.cast_add]
      exact add_le_add hhead hlater

/-- A seat wins back what it has committed beyond the others. -/
theorem le_awards {i : Fin n} {cap : ℕ}
    (hcap : ∀ j, j ≠ i → (players j).totalCommitted ≤ cap)
    (h : List.Forall₂ (PaysPot e board players) (slices players prev levels) awards) :
    (layers (fun j => (players j).totalCommitted) prev levels).sum ≤
      (awards.map fun award => award i).sum +
        (layers (fun j => min (players j).totalCommitted cap) prev levels).sum := by
  induction levels generalizing prev awards with
  | nil =>
    cases h
    simp [layers]
  | cons level levels ih =>
    cases h with
    | cons hpays hrest =>
      rename_i award awards
      have hlater := ih hrest
      have hhead : (((level - prev) * contributors players level : ℕ) : ℤ) ≤
          award i + ((level - prev) * (Finset.univ.filter fun j =>
            level ≤ min (players j).totalCommitted cap).card : ℕ) := by
        by_cases hlevel : level ≤ cap
        · rw [card_min_of_le hlevel]
          exact le_add_of_nonneg_left (hpays.nonneg i)
        · -- nobody else has reached the slice
          have hother : ∀ j, j ≠ i → award j = 0 := by
            intro j hj
            refine hpays.eq_zero j fun hmem => ?_
            have := ((mem_eligibleSeats players).mp (List.mem_filter.mp hmem).1).1
            have := hcap j hj
            omega
          have htotal := hpays.total_eq
          rw [Finset.sum_eq_single i (fun j _ hj => hother j hj) (by simp)] at htotal
          rw [htotal]
          exact le_add_of_nonneg_right (Int.natCast_nonneg _)
      have hwidth : (Finset.univ.filter fun j => level ≤ (players j).totalCommitted).card =
          contributors players level := rfl
      simp only [layers, List.map_cons, List.sum_cons, Nat.cast_add, hwidth]
      omega

end Slices

end VibePoker.Game
