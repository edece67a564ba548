import Mathlib.Logic.Equiv.Basic
import Mathlib.Logic.Equiv.Fin.Basic

/-!
# Shuffling by random exchanges

A shuffle goes through an array from its end and exchanges each entry with one that is
drawn from those up to it. The draws come from a generator with a state. Whatever is drawn,
the array is only rearranged.

## Main definitions

* `shuffleFrom` — the exchanges from an index down
* `exchanges` — what they do for given draws

## Main results

* `exists_perm_shuffleFrom` — a shuffle is a permutation
* `exchanges_eq_iff`, `exists_exchanges` — each permutation comes from one choice of the draws
-/

namespace VibePoker.Math

variable {ρ α : Type*} {n : ℕ}

/-- Exchange the entries at `i`, `i - 1` down to `1`, each with the entry at the index that
`draw` gives for it. -/
def shuffleFrom (draw : (i : ℕ) → ρ → Fin (i + 1) × ρ) :
    (i : ℕ) → i < n → ρ → (Fin n → α) → Fin n → α
  | 0, _, _, entries => entries
  | i + 1, h, rng, entries =>
    let drawn := draw (i + 1) rng
    shuffleFrom draw i (Nat.lt_of_succ_lt h) drawn.2
      (entries ∘ Equiv.swap ⟨i + 1, h⟩ (drawn.1.castLE h))

/-- Whatever is drawn, shuffling permutes the entries. -/
theorem exists_perm_shuffleFrom (draw : (i : ℕ) → ρ → Fin (i + 1) × ρ) {i : ℕ} (h : i < n)
    (rng : ρ) (entries : Fin n → α) :
    ∃ σ : Equiv.Perm (Fin n), shuffleFrom draw i h rng entries = entries ∘ σ := by
  induction i generalizing rng entries with
  | zero => exact ⟨Equiv.refl _, rfl⟩
  | succ i ih =>
    rw [shuffleFrom]
    obtain ⟨σ, hσ⟩ := ih (Nat.lt_of_succ_lt h) (draw (i + 1) rng).2
      (entries ∘ Equiv.swap ⟨i + 1, h⟩ ((draw (i + 1) rng).1.castLE h))
    refine ⟨σ.trans (Equiv.swap ⟨i + 1, h⟩ ((draw (i + 1) rng).1.castLE h)), ?_⟩
    rw [hσ]
    rfl

/-! ## Shuffles with given draws -/

/-- The permutation of a shuffle from an index down, for given draws. -/
def exchanges (draws : (i : ℕ) → Fin (i + 1)) : (i : ℕ) → i < n → Equiv.Perm (Fin n)
  | 0, _ => Equiv.refl _
  | i + 1, h =>
    (exchanges draws i (Nat.lt_of_succ_lt h)).trans
      (Equiv.swap ⟨i + 1, h⟩ ((draws (i + 1)).castLE h))

theorem shuffleFrom_draws (draws : (i : ℕ) → Fin (i + 1)) {i : ℕ} (h : i < n) (rng : ρ)
    (entries : Fin n → α) :
    shuffleFrom (fun i rng => (draws i, rng)) i h rng entries = entries ∘ exchanges draws i h := by
  induction i generalizing entries with
  | zero => rfl
  | succ i ih =>
    rw [shuffleFrom, ih (Nat.lt_of_succ_lt h)]
    rfl

/-- What lies beyond the index stays where it is. -/
theorem exchanges_of_lt (draws : (i : ℕ) → Fin (i + 1)) {i : ℕ} (h : i < n) {j : Fin n}
    (hj : i < j.val) : exchanges draws i h j = j := by
  induction i with
  | zero => rfl
  | succ i ih =>
    rw [exchanges, Equiv.trans_apply, ih (Nat.lt_of_succ_lt h) (Nat.lt_of_succ_lt hj)]
    refine Equiv.swap_apply_of_ne_of_ne (Fin.ne_of_gt hj) fun heq => ?_
    have hdrawn := (draws (i + 1)).isLt
    have hval : j.val = (draws (i + 1)).val := congrArg Fin.val heq
    omega

/-- The draw for an index is where its entry comes from. -/
theorem exchanges_self (draws : (i : ℕ) → Fin (i + 1)) {i : ℕ} (h : i + 1 < n) :
    exchanges draws (i + 1) h ⟨i + 1, h⟩ = (draws (i + 1)).castLE h := by
  rw [exchanges, Equiv.trans_apply,
    exchanges_of_lt draws (Nat.lt_of_succ_lt h) (Nat.lt_succ_self i), Equiv.swap_apply_left]

/-- Other draws give another permutation. -/
theorem exchanges_eq_iff {draws draws' : (i : ℕ) → Fin (i + 1)} {i : ℕ} (h : i < n) :
    exchanges draws i h = exchanges draws' i h ↔ ∀ j, 1 ≤ j → j ≤ i → draws j = draws' j := by
  induction i with
  | zero => exact iff_of_true rfl fun j hpos hle => absurd hpos (by omega)
  | succ i ih =>
    have hi := Nat.lt_of_succ_lt h
    constructor
    · intro heq
      have hlast : draws (i + 1) = draws' (i + 1) := by
        have hself := congrArg (fun σ => σ ⟨i + 1, h⟩) heq
        rw [exchanges_self, exchanges_self] at hself
        exact Fin.castLE_injective h hself
      have hrest : exchanges draws i hi = exchanges draws' i hi := by
        rw [exchanges, exchanges, hlast] at heq
        refine Equiv.ext fun j => ?_
        exact (Equiv.swap (⟨i + 1, h⟩ : Fin n) ((draws' (i + 1)).castLE h)).injective
          (Equiv.congr_fun heq j)
      intro j hpos hle
      rcases hle.lt_or_eq with hlt | rfl
      · exact (ih hi).mp hrest j hpos (Nat.le_of_lt_succ hlt)
      · exact hlast
    · intro heq
      rw [exchanges, exchanges, (ih hi).mpr fun j hpos hle => heq j hpos (Nat.le_succ_of_le hle),
        heq (i + 1) (Nat.succ_pos i) le_rfl]

/-- Some draws give any permutation that leaves alone what lies beyond the index. -/
theorem exists_exchanges {i : ℕ} (h : i < n) (σ : Equiv.Perm (Fin n))
    (hσ : ∀ j : Fin n, i < j.val → σ j = j) : ∃ draws, exchanges draws i h = σ := by
  induction i generalizing σ with
  | zero =>
    refine ⟨fun _ => 0, Equiv.ext fun j => ?_⟩
    -- a permutation that moves no index but the first does not move this one either
    by_cases hj : 0 < j.val
    · exact (hσ j hj).symm
    · by_contra hne
      have hpos : 0 < (σ j).val := by
        by_contra hzero
        exact hne (Fin.ext (show j.val = (σ j).val by omega))
      exact hne (σ.injective (hσ (σ j) hpos)).symm
  | succ i ih =>
    have hi := Nat.lt_of_succ_lt h
    have hle : (σ ⟨i + 1, h⟩).val < i + 1 + 1 := by
      by_contra hbeyond
      have hfixed := σ.injective (hσ (σ ⟨i + 1, h⟩) (by omega))
      have hval : (σ ⟨i + 1, h⟩).val = i + 1 := congrArg Fin.val hfixed
      omega
    have hmoves : ∀ j : Fin n, i < j.val →
        (σ.trans (Equiv.swap ⟨i + 1, h⟩ (σ ⟨i + 1, h⟩))) j = j := by
      intro j hj
      by_cases hlast : j = ⟨i + 1, h⟩
      · rw [hlast, Equiv.trans_apply, Equiv.swap_apply_right]
      · have hbeyond : i + 1 < j.val := lt_of_le_of_ne hj fun heq => hlast (Fin.ext heq.symm)
        rw [Equiv.trans_apply, hσ j hbeyond]
        refine Equiv.swap_apply_of_ne_of_ne hlast fun heq => ?_
        rw [← heq] at hle
        omega
    obtain ⟨draws, hdraws⟩ := ih hi _ hmoves
    refine ⟨Function.update draws (i + 1) ⟨_, hle⟩, ?_⟩
    have hrest : exchanges (Function.update draws (i + 1) ⟨_, hle⟩) i hi = exchanges draws i hi :=
      (exchanges_eq_iff hi).mpr fun j _ hj => Function.update_of_ne (by omega) _ _
    rw [exchanges, hrest, hdraws, Function.update_self]
    refine Equiv.ext fun j => ?_
    exact Equiv.swap_apply_self _ _ (σ j)

end VibePoker.Math
