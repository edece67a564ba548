import Mathlib.Algebra.BigOperators.Ring.Finset
import Mathlib.Algebra.Module.Defs
import Mathlib.Data.Finset.Card
import Mathlib.Data.List.Pairwise

/-!
# Summing a function layer by layer

A function `f` with values in `ℕ` is cut at ascending levels. The layer between
two levels is as thick as their distance and as wide as the number of points
that reach its top. The layers of the levels that `f` takes add up to `f`.

## Main results

* `sum_layers` — the layers above a base add up to what `f` exceeds the base by
-/

namespace VibePoker.Math

variable {ι : Type*} [Fintype ι]

/-- The volume of the layers of `f` between `base` and the successive levels. -/
def layers (f : ι → ℕ) (base : ℕ) : List ℕ → List ℕ
  | [] => []
  | level :: levels =>
    (level - base) * (Finset.univ.filter fun i => level ≤ f i).card :: layers f level levels

/-- If `f` only takes values up to the base and values among the levels, the
layers add up to what `f` exceeds the base by. -/
theorem sum_layers (f : ι → ℕ) (base : ℕ) (levels : List ℕ)
    (hsorted : (base :: levels).Pairwise (· < ·)) (hvalues : ∀ i, f i ≤ base ∨ f i ∈ levels) :
    (layers f base levels).sum = ∑ i, (f i - base) := by
  induction levels generalizing base with
  | nil =>
    refine (Finset.sum_eq_zero fun i _ => ?_).symm
    have := (hvalues i).resolve_right (by simp)
    omega
  | cons level levels ih =>
    obtain ⟨hbase, hrest⟩ := List.pairwise_cons.mp hsorted
    have hlt : base < level := hbase level List.mem_cons_self
    have hvalues' : ∀ i, f i ≤ level ∨ f i ∈ levels := by
      intro i
      rcases hvalues i with hle | hmem
      · exact Or.inl (hle.trans hlt.le)
      · rcases List.mem_cons.mp hmem with heq | hmem
        · exact Or.inl heq.le
        · exact Or.inr hmem
    have hthick : ∑ i, (if level ≤ f i then level - base else 0) =
        (level - base) * (Finset.univ.filter fun i => level ≤ f i).card := by
      rw [Finset.sum_ite, Finset.sum_const, Finset.sum_const_zero, smul_eq_mul, add_zero,
        Nat.mul_comm]
    rw [layers, List.sum_cons, ih level hrest hvalues', ← hthick, ← Finset.sum_add_distrib]
    refine Finset.sum_congr rfl fun i _ => ?_
    -- A point below the first level does not exceed the base.
    have hbelow : f i < level → f i ≤ base := by
      intro hi
      rcases hvalues i with hle | hmem
      · exact hle
      · rcases List.mem_cons.mp hmem with heq | hmem
        · omega
        · have := (List.pairwise_cons.mp hrest).1 _ hmem
          omega
    split
    · omega
    · have := hbelow (by omega)
      omega

end VibePoker.Math
