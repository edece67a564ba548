import Mathlib.Data.List.Lex
import Mathlib.Data.Nat.Bitwise
import Mathlib.Data.Prod.Lex
import Mathlib.Tactic.Ring

/-!
# Numbers that compare like lists

Digits that are written from the highest down make a number. Among lists of the same length
the numbers compare like the lists, and a leading digit decides before them.

## Main definitions

* `fromDigits` — the number with given digits

## Main results

* `fromDigits_lt_iff` — numbers of the same length compare like their digits
* `add_lt_add_iff` — numbers behind a leading part
* `or_eq_add` — a number put together with shifts
-/

namespace VibePoker.Math

variable {b : ℕ}

/-- The number with the given digits, from the highest down. -/
def fromDigits (b : ℕ) : List ℕ → ℕ
  | [] => 0
  | d :: digits => d * b ^ digits.length + fromDigits b digits

theorem fromDigits_lt {digits : List ℕ} (h : ∀ d ∈ digits, d < b) :
    fromDigits b digits < b ^ digits.length := by
  induction digits with
  | nil => exact Nat.one_pos
  | cons d digits ih =>
    obtain ⟨hd, hdigits⟩ := List.forall_mem_cons.mp h
    calc d * b ^ digits.length + fromDigits b digits
        < d * b ^ digits.length + b ^ digits.length := Nat.add_lt_add_left (ih hdigits) _
      _ = (d + 1) * b ^ digits.length := (Nat.succ_mul _ _).symm
      _ ≤ b * b ^ digits.length := Nat.mul_le_mul_right _ hd
      _ = b ^ (d :: digits).length := by rw [List.length_cons, Nat.pow_succ, Nat.mul_comm]

/-- What comes behind a leading part decides only between equal leading parts. -/
theorem add_lt_add_iff {c x y m n : ℕ} (hx : x < c) (hy : y < c) :
    m * c + x < n * c + y ↔ m < n ∨ m = n ∧ x < y := by
  have hstep : ∀ {m n x : ℕ}, m < n → x < c → m * c + x < n * c := by
    intro m n x hmn hx
    calc m * c + x < m * c + c := Nat.add_lt_add_left hx _
      _ = (m + 1) * c := (Nat.succ_mul _ _).symm
      _ ≤ n * c := Nat.mul_le_mul_right _ hmn
  rcases Nat.lt_trichotomy m n with hlt | rfl | hgt
  · have := hstep hlt hx
    exact iff_of_true (by omega) (Or.inl hlt)
  · omega
  · have := hstep hgt hy
    exact iff_of_false (by omega) (by omega)

/-- Numbers with as many digits compare like their digits. -/
theorem fromDigits_lt_iff {l l' : List ℕ} (hlength : l.length = l'.length)
    (h : ∀ d ∈ l, d < b) (h' : ∀ d ∈ l', d < b) :
    fromDigits b l < fromDigits b l' ↔ l < l' := by
  induction l generalizing l' with
  | nil =>
    obtain rfl := List.length_eq_zero_iff.mp hlength.symm
    exact iff_of_false (Nat.lt_irrefl _) (lt_irrefl _)
  | cons d l ih =>
    cases l' with
    | nil => cases hlength
    | cons d' l' =>
      have hlengths : l.length = l'.length := Nat.succ.inj hlength
      obtain ⟨-, hl⟩ := List.forall_mem_cons.mp h
      obtain ⟨-, hl'⟩ := List.forall_mem_cons.mp h'
      rw [fromDigits, fromDigits, hlengths, add_lt_add_iff (hlengths ▸ fromDigits_lt hl)
        (fromDigits_lt hl'), ih hlengths hl hl', List.cons_lt_cons_iff]

/-- A shifted number and one below it do not overlap. -/
theorem or_eq_add {x k : ℕ} (a : ℕ) (h : x < 2 ^ k) : a * 2 ^ k ||| x = a * 2 ^ k + x := by
  rw [← Nat.shiftLeft_eq, Nat.shiftLeft_add_eq_or_of_lt h]

end VibePoker.Math
