import Mathlib.Algebra.BigOperators.Group.List.Basic
import Mathlib.Algebra.Order.Ring.Nat
import Mathlib.Data.List.Nodup

/-!
# Consecutive blocks

A range is cut into blocks of given sizes, one behind the other. The blocks have each
element of the range once. A total that is shared out as evenly as possible, with one more
for the first shares while the remainder lasts, makes such sizes.

## Main definitions

* `blockStart` — where a block starts
* `evenShare` — the shares of a total

## Main results

* `flatMap_blocks` — the blocks, one behind the other, are the range
* `existsUnique_block` — each element is in one of them
* `blockStart_evenShare` — the shares make up the total
-/

namespace VibePoker.Math

variable {size : ℕ → ℕ} {base count x : ℕ}

/-! ## Blocks of a range -/

/-- A block starts behind the blocks before it. -/
def blockStart (size : ℕ → ℕ) (t : ℕ) : ℕ := ((List.range t).map size).sum

@[simp] theorem blockStart_zero (size : ℕ → ℕ) : blockStart size 0 = 0 := rfl

theorem blockStart_succ (size : ℕ → ℕ) (t : ℕ) :
    blockStart size (t + 1) = blockStart size t + size t := by
  rw [blockStart, List.range_succ, List.map_append, List.sum_append]
  rfl

theorem blockStart_mono (size : ℕ → ℕ) : Monotone (blockStart size) := by
  apply monotone_nat_of_le_succ
  intro t
  rw [blockStart_succ]
  exact Nat.le_add_right _ _

/-- A block ends where the next one starts, or before. -/
theorem blockStart_succ_le {t u : ℕ} (h : t < u) :
    blockStart size (t + 1) ≤ blockStart size u :=
  blockStart_mono size h

/-- The elements of a block. -/
def block (size : ℕ → ℕ) (base t : ℕ) : List ℕ := List.range' (base + blockStart size t) (size t)

theorem mem_block {t : ℕ} : x ∈ block size base t ↔
    base + blockStart size t ≤ x ∧ x < base + blockStart size (t + 1) := by
  rw [block, List.mem_range'_1, blockStart_succ, Nat.add_assoc]

theorem nodup_block (size : ℕ → ℕ) (base t : ℕ) : (block size base t).Nodup := List.nodup_range'

/-- The blocks, one behind the other, are the range. -/
theorem flatMap_blocks (size : ℕ → ℕ) (base count : ℕ) :
    (List.range count).flatMap (block size base) = List.range' base (blockStart size count) := by
  induction count with
  | zero => rfl
  | succ count ih =>
    rw [List.range_succ, List.flatMap_append, ih, List.flatMap_singleton, block,
      List.range'_append_1, blockStart_succ]

/-- No element is in two blocks. -/
theorem eq_of_mem_block {t u : ℕ} (ht : x ∈ block size base t) (hu : x ∈ block size base u) :
    t = u := by
  rw [mem_block] at ht hu
  by_contra hne
  rcases Nat.lt_or_gt_of_ne hne with hlt | hgt
  · have hle := @blockStart_succ_le size t u hlt
    omega
  · have hle := @blockStart_succ_le size u t hgt
    omega

/-- Each element of the range is in one block. -/
theorem existsUnique_block (hlow : base ≤ x) (hhigh : x < base + blockStart size count) :
    ∃! t, t < count ∧ x ∈ block size base t := by
  have hmem : x ∈ (List.range count).flatMap (block size base) := by
    rw [flatMap_blocks]
    exact List.mem_range'_1.mpr ⟨hlow, hhigh⟩
  obtain ⟨t, ht, hx⟩ := List.mem_flatMap.mp hmem
  exact ⟨t, ⟨List.mem_range.mp ht, hx⟩, fun u hu => eq_of_mem_block hu.2 hx⟩

/-! ## Even shares -/

/-- The share of place `t`, when the first `more` places get one more. -/
def evenShare (least more t : ℕ) : ℕ := least + if t < more then 1 else 0

theorem blockStart_evenShare_eq (least more t : ℕ) :
    blockStart (evenShare least more) t = least * t + min t more := by
  induction t with
  | zero => rw [blockStart_zero, Nat.mul_zero, Nat.zero_min]
  | succ t ih =>
    rw [blockStart_succ, ih, evenShare, Nat.mul_succ]
    split <;> omega

/-- The shares of a total make up the total. -/
theorem blockStart_evenShare (total : ℕ) (hcount : 0 < count) :
    blockStart (evenShare (total / count) (total % count)) count = total := by
  rw [blockStart_evenShare_eq, Nat.min_eq_right (Nat.mod_lt total hcount).le, Nat.mul_comm]
  exact Nat.div_add_mod total count

end VibePoker.Math
