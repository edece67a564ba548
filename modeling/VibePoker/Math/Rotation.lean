import Mathlib.Algebra.BigOperators.Group.Finset.Basic
import Mathlib.Data.Fintype.BigOperators
import Mathlib.Order.Lattice.Nat
import VibePoker.Math.SeatRing

/-!
# Rotations of a ring of seats

Two numberings of the seats of one ring differ by a rotation: a bijection that keeps the
clockwise neighbours. A clockwise search under one numbering is the same search under the
other, and counts and sums over the ring do not depend on the numbering.

## Main definitions

* `Rotation` — a renumbering of the seats that keeps the clockwise order
* `Rotation.shift` — the renumbering that starts to count at another seat

## Main results

* `map_ringAfter` — a renumbered search is a search from the renumbered start
* `card_filter`, `sum` — counting and summing over the ring
-/

namespace VibePoker.Math

variable {n m : ℕ}

/-- A renumbering of the seats of a ring that keeps the clockwise order. -/
structure Rotation (n m : ℕ) extends Fin n ≃ Fin m where
  map_next : ∀ i, toFun (ringNext i) = ringNext (toFun i)

namespace Rotation

theorem apply_ringNext (ρ : Rotation n m) (i : Fin n) :
    ρ.toEquiv (ringNext i) = ringNext (ρ.toEquiv i) := ρ.map_next i

instance : CoeFun (Rotation n m) fun _ => Fin n → Fin m := ⟨fun ρ => ρ.toEquiv⟩

/-- Every seat keeps its number. -/
def refl (n : ℕ) : Rotation n n where
  toEquiv := Equiv.refl (Fin n)
  map_next _ := rfl

/-- Count the seats of a ring of `n` from seat `r` on. -/
def shift (r : ℕ) (h : m = n) : Rotation n m where
  toFun i := ⟨(i + (n - r % n)) % n, (Nat.mod_lt _ i.pos).trans_eq h.symm⟩
  invFun j := ⟨(j + r) % n, Nat.mod_lt _ (j.pos.trans_eq h)⟩
  left_inv i := by
    have hlt := Nat.mod_lt r i.pos
    refine Fin.ext ?_
    change ((i + (n - r % n)) % n + r) % n = i
    calc ((i + (n - r % n)) % n + r) % n
        = (i + (n - r % n) + r % n) % n := by rw [Nat.mod_add_mod, Nat.add_mod_mod]
      _ = (i + n) % n := by
          congr 1
          omega
      _ = i := by rw [Nat.add_mod_right, Nat.mod_eq_of_lt i.isLt]
  right_inv j := by
    have hj : (j : ℕ) < n := j.isLt.trans_eq h
    have hlt := Nat.mod_lt r (Nat.zero_lt_of_lt hj)
    refine Fin.ext ?_
    change ((j + r) % n + (n - r % n)) % n = j
    calc ((j + r) % n + (n - r % n)) % n
        = (j + r % n + (n - r % n)) % n := by
          rw [Nat.add_mod j, Nat.mod_eq_of_lt hj, Nat.mod_add_mod]
      _ = (j + n) % n := by
          congr 1
          omega
      _ = j := by rw [Nat.add_mod_right, Nat.mod_eq_of_lt hj]
  map_next i := by
    refine Fin.ext ?_
    change ((i + 1) % n + (n - r % n)) % n = ((i + (n - r % n)) % n + 1) % m
    rw [h, Nat.mod_add_mod, Nat.mod_add_mod]
    congr 1
    omega

@[simp] theorem shift_symm_val (r : ℕ) (h : m = n) (j : Fin m) :
    ((shift r h).toEquiv.symm j : ℕ) = (j + r) % n := rfl

variable (ρ : Rotation n m)

/-- Both numberings count as many seats. -/
theorem card_eq (ρ : Rotation n m) : n = m := by simpa using Fintype.card_congr ρ.toEquiv

/-- The number of a seat, renumbered. -/
def seat (k : ℕ) : ℕ := if h : 0 < n then ρ ⟨k % n, Nat.mod_lt _ h⟩ else k

@[simp] theorem seat_val (i : Fin n) : ρ.seat i = ρ i := by
  rw [seat, dif_pos i.pos]
  exact congrArg (fun j => (ρ j : ℕ)) (Fin.ext (Nat.mod_eq_of_lt i.isLt))

@[simp] theorem refl_seat {k : ℕ} (h : k < n) : (refl n).seat k = k :=
  (refl n).seat_val ⟨k, h⟩

/-! ## Searching -/

theorem map_ringFrom (count : ℕ) (i : Fin n) :
    (ringFrom count i).map ρ = ringFrom count (ρ i) := by
  induction count generalizing i with
  | zero => rfl
  | succ count ih => rw [ringFrom, ringFrom, List.map_cons, ih, ρ.apply_ringNext]

/-- A renumbered search is a search from the renumbered start. -/
theorem map_ringAfter (start : ℕ) : (ringAfter n start).map ρ = ringAfter m (ρ.seat start) := by
  rcases Nat.eq_zero_or_pos n with rfl | hn
  · obtain rfl := ρ.card_eq
    rfl
  · have hmod : ringAfter n start = ringAfter n (⟨start % n, Nat.mod_lt _ hn⟩ : Fin n) := by
      unfold ringAfter
      congr 1
      funext k
      exact Fin.ext (by simp only [Nat.mod_add_mod])
    rw [hmod, ringAfter_eq_ringFrom, map_ringFrom, ρ.apply_ringNext, seat, dif_pos hn,
      ringAfter_eq_ringFrom]
    exact congrArg (ringFrom · _) ρ.card_eq

/-- The seat that a search finds, renumbered. -/
theorem find?_ringAfter (start : ℕ) (p : Fin m → Bool) :
    (ringAfter m (ρ.seat start)).find? p =
      ((ringAfter n start).find? fun i => p (ρ i)).map ρ := by
  rw [← map_ringAfter, List.find?_map]
  rfl

/-! ## Counting and summing -/

theorem card_filter (p : Fin n → Prop) [DecidablePred p] :
    (Finset.univ.filter fun j => p (ρ.toEquiv.symm j)).card = (Finset.univ.filter p).card :=
  Finset.card_equiv ρ.toEquiv.symm (by simp)

theorem sum (f : Fin n → ℕ) : ∑ j, f (ρ.toEquiv.symm j) = ∑ i, f i := ρ.toEquiv.symm.sum_comp f

theorem sup_filter (p : Fin n → Prop) [DecidablePred p] (f : Fin n → ℕ) :
    ((Finset.univ.filter fun j => p (ρ.toEquiv.symm j)).sup fun j => f (ρ.toEquiv.symm j)) =
      (Finset.univ.filter p).sup f := by
  apply le_antisymm
  · refine Finset.sup_le fun j hj => Finset.le_sup (f := f) ?_
    simpa using hj
  · refine Finset.sup_le fun i hi => ?_
    have hle := Finset.le_sup (f := fun j => f (ρ.toEquiv.symm j)) (b := ρ i)
      (s := Finset.univ.filter fun j => p (ρ.toEquiv.symm j)) (by simpa using hi)
    simpa using hle

/-- The seats in order under one numbering are those under the other in some order. -/
theorem finRange_perm : (List.finRange m).Perm ((List.finRange n).map ρ) := by
  refine (List.perm_ext_iff_of_nodup (List.nodup_finRange m)
    ((List.nodup_finRange n).map ρ.toEquiv.injective)).mpr fun j => ?_
  simp only [List.mem_finRange, List.mem_map, true_and, true_iff]
  exact ρ.toEquiv.surjective j

end Rotation

end VibePoker.Math
