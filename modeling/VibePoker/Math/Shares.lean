import Mathlib.Algebra.BigOperators.Group.List.Basic
import Mathlib.Algebra.Order.Ring.Nat

/-!
# Dividing in parts

An amount that is divided part by part leaves the remainders of the parts. Together they
are the remainder of the whole exactly if they do not fill another share.

## Main results

* `div_sum_eq_iff` — when dividing in parts gives the shares of the whole
-/

namespace VibePoker.Math

variable {w : ℕ} (l : List ℕ)

/-- The shares of the parts and their remainders. -/
theorem sum_eq_mul_add (w : ℕ) :
    l.sum = w * (l.map (· / w)).sum + (l.map (· % w)).sum := by
  induction l with
  | nil => simp
  | cons a l ih =>
    have ha := Nat.div_add_mod a w
    rw [List.sum_cons, List.map_cons, List.map_cons, List.sum_cons, List.sum_cons, Nat.mul_add]
    omega

/-- The share of the whole counts the shares that the remainders fill. -/
theorem div_sum (hw : 0 < w) :
    l.sum / w = (l.map (· / w)).sum + (l.map (· % w)).sum / w := by
  rw [sum_eq_mul_add l w, Nat.mul_add_div hw]

theorem mod_sum (w : ℕ) : l.sum % w = (l.map (· % w)).sum % w := by
  rw [sum_eq_mul_add l w, Nat.mul_add_mod]

/-- Dividing in parts gives the shares of the whole if the remainders do not fill one. -/
theorem div_sum_eq_iff (hw : 0 < w) :
    l.sum / w = (l.map (· / w)).sum ↔ (l.map (· % w)).sum < w := by
  rw [div_sum l hw, Nat.add_eq_left, Nat.div_eq_zero_iff_lt hw]

theorem mod_sum_of_lt (h : (l.map (· % w)).sum < w) : l.sum % w = (l.map (· % w)).sum := by
  rw [mod_sum, Nat.mod_eq_of_lt h]

/-- A single share leaves no remainder. -/
theorem sum_mod_one (h : w = 1) : (l.map (· % w)).sum = 0 := by
  subst h
  refine List.sum_eq_zero fun r hr => ?_
  obtain ⟨a, -, rfl⟩ := List.mem_map.mp hr
  exact Nat.mod_one a

/-- Remainders that count as the shares they fill and the rest of a share fill none. -/
theorem sum_mod_lt_of_eq (hw : 0 < w)
    (h : (l.map (· % w)).sum = (l.map (· % w)).sum / w + (l.map (· % w)).sum % w) :
    (l.map (· % w)).sum < w := by
  by_contra hlt
  have hshare : 0 < (l.map (· % w)).sum / w := Nat.div_pos (not_lt.mp hlt) hw
  have hdiv := Nat.div_add_mod (l.map (· % w)).sum w
  have hone : w = 1 := by
    have hmul : w * ((l.map (· % w)).sum / w) = 1 * ((l.map (· % w)).sum / w) := by omega
    exact Nat.eq_of_mul_eq_mul_right hshare hmul
  rw [sum_mod_one l hone] at hlt
  exact hlt hw

end VibePoker.Math
