import Mathlib.Data.List.OfFn
import Mathlib.Data.List.FinRange
import Mathlib.Data.List.Rotate
import Mathlib.Data.Fintype.EquivFin

/-!
# Cyclic search over a ring of seats

A table of `n` seats is searched clockwise: from a starting index `k` the search
visits `k + 1, k + 2, …, k + n` modulo `n`, so every seat once and the starting
seat last. The same walk can be taken one seat at a time.

## Main definitions

* `ringNext` — the seat clockwise of a seat
* `ringAfter` — the visiting order of the search that starts after an index
* `ringFrom` — `k` consecutive seats, starting with the given one

## Main results

* `mem_ringAfter` — the search visits every seat
* `ringAfter_eq_ringFrom` — the search after a seat is the walk from its successor
-/

namespace VibePoker.Math

variable {n : ℕ}

/-- The seat clockwise of `seat`. -/
def ringNext (seat : Fin n) : Fin n := ⟨(seat + 1) % n, Nat.mod_lt _ seat.pos⟩

/-- The seats in the order in which a clockwise search starting after index
`start` visits them. -/
def ringAfter (n start : ℕ) : List (Fin n) :=
  List.ofFn fun k : Fin n => ⟨(start + (k + 1)) % n, Nat.mod_lt _ k.pos⟩

/-- `count` consecutive seats, the first being `seat`. -/
def ringFrom : ℕ → Fin n → List (Fin n)
  | 0, _ => []
  | count + 1, seat => seat :: ringFrom count (ringNext seat)

@[simp] theorem ringNext_val (seat : Fin n) : (ringNext seat : ℕ) = (seat + 1) % n := rfl

@[simp] theorem length_ringAfter (start : ℕ) : (ringAfter n start).length = n := by
  simp [ringAfter]

@[simp] theorem length_ringFrom (count : ℕ) (seat : Fin n) :
    (ringFrom count seat).length = count := by
  induction count generalizing seat with
  | zero => rfl
  | succ count ih => simp [ringFrom, ih]

/-- The search visits every seat. -/
theorem mem_ringAfter (start : ℕ) (seat : Fin n) : seat ∈ ringAfter n start := by
  have hpos := seat.pos
  -- The offset at which the search meets `seat`.
  let offset := (seat + (n - (start + 1) % n)) % n
  refine (List.mem_ofFn' _ _).mpr ⟨⟨offset, Nat.mod_lt _ hpos⟩, Fin.ext ?_⟩
  have hlt : (start + 1) % n < n := Nat.mod_lt _ hpos
  have hsplit : start + 1 + (seat + (n - (start + 1) % n)) =
      seat + n * ((start + 1) / n + 1) := by
    have := Nat.div_add_mod (start + 1) n
    rw [Nat.mul_add, Nat.mul_one]
    omega
  calc (start + (offset + 1)) % n
      = (start + 1 + (seat + (n - (start + 1) % n))) % n := by
        rw [show start + (offset + 1) = start + 1 + offset by omega, Nat.add_mod_mod]
    _ = seat := by rw [hsplit, Nat.add_mul_mod_self_left, Nat.mod_eq_of_lt seat.isLt]

theorem ringFrom_eq_ofFn (count : ℕ) (seat : Fin n) :
    ringFrom count seat =
      List.ofFn fun k : Fin count => (⟨(seat + k) % n, Nat.mod_lt _ seat.pos⟩ : Fin n) := by
  induction count generalizing seat with
  | zero => rfl
  | succ count ih =>
    rw [ringFrom, ih, List.ofFn_succ]
    congr 1
    · exact Fin.ext (Nat.mod_eq_of_lt seat.isLt).symm
    · congr 1
      funext k
      refine Fin.ext ?_
      simp only [ringNext_val, Fin.val_succ, Nat.mod_add_mod]
      congr 1
      omega

/-- Searching after a seat is walking from the seat clockwise of it. -/
theorem ringAfter_eq_ringFrom (seat : Fin n) :
    ringAfter n seat = ringFrom n (ringNext seat) := by
  rw [ringFrom_eq_ofFn, ringAfter]
  congr 1
  funext k
  refine Fin.ext ?_
  simp only [ringNext_val, Nat.mod_add_mod]
  congr 1
  omega

/-- The walk once around the table meets every seat. -/
theorem mem_ringFrom (seat target : Fin n) : target ∈ ringFrom n seat := by
  have hlast : ringNext (⟨(seat + (n - 1)) % n, Nat.mod_lt _ seat.pos⟩ : Fin n) = seat := by
    refine Fin.ext ?_
    have hpos := seat.pos
    rw [ringNext_val]
    simp only [Nat.mod_add_mod]
    rw [show seat + (n - 1) + 1 = seat + n by omega, Nat.add_mod_right,
      Nat.mod_eq_of_lt seat.isLt]
  have hmem := mem_ringAfter (n := n) (seat + (n - 1)) target
  rw [← hlast, ← ringAfter_eq_ringFrom]
  have hmod : ringAfter n (seat + (n - 1)) = ringAfter n ((seat + (n - 1)) % n) := by
    unfold ringAfter
    congr 1
    funext k
    exact Fin.ext (by simp only [Nat.mod_add_mod])
  rwa [hmod] at hmem

/-- A cyclic search fails exactly when no seat qualifies. -/
theorem find?_ringAfter_eq_none_iff (start : ℕ) (p : Fin n → Bool) :
    (ringAfter n start).find? p = none ↔ ∀ seat, p seat = false := by
  rw [List.find?_eq_none]
  exact ⟨fun h seat => by simpa using h seat (mem_ringAfter start seat),
    fun h seat _ => by simp [h seat]⟩

theorem find?_ringAfter_isSome (start : ℕ) {p : Fin n → Bool} {seat : Fin n} (h : p seat) :
    ∃ found, (ringAfter n start).find? p = some found ∧ p found := by
  cases hfind : (ringAfter n start).find? p with
  | none =>
    have := (find?_ringAfter_eq_none_iff start p).mp hfind seat
    simp [h] at this
  | some found => exact ⟨found, rfl, List.find?_some hfind⟩

theorem nodup_ringAfter (start : ℕ) : (ringAfter n start).Nodup := by
  refine List.nodup_ofFn.mpr (Finite.injective_iff_surjective.mpr fun seat => ?_)
  exact (List.mem_ofFn' _ _).mp (mem_ringAfter start seat)

/-- The search after a seat returns to that seat last. -/
theorem ringAfter_eq_append (seat : Fin n) :
    ∃ others, ringAfter n seat = others ++ [seat] ∧ seat ∉ others := by
  have hne : ringAfter n seat ≠ [] := List.ne_nil_of_mem (mem_ringAfter seat seat)
  have hlast : (ringAfter n seat).getLast hne = seat := by
    have hpos := seat.pos
    refine Fin.ext ?_
    simp only [ringAfter, List.getLast_ofFn]
    rw [show (seat : ℕ) + (n - 1 + 1) = seat + n by omega, Nat.add_mod_right,
      Nat.mod_eq_of_lt seat.isLt]
  have hsplit := List.dropLast_append_getLast hne
  rw [hlast] at hsplit
  refine ⟨(ringAfter n seat).dropLast, hsplit.symm, fun hmem => ?_⟩
  have hnodup := nodup_ringAfter (n := n) seat
  rw [← hsplit] at hnodup
  exact (List.nodup_append.mp hnodup).2.2 seat hmem seat (by simp) rfl

/-- If another seat qualifies, the search after a seat finds another seat. -/
theorem find?_ringAfter_ne {p : Fin n → Bool} {seat other found : Fin n} (hother : p other)
    (hne : other ≠ seat) (h : (ringAfter n seat).find? p = some found) : found ≠ seat := by
  obtain ⟨others, hring, hseat⟩ := ringAfter_eq_append seat
  have hmem := mem_ringAfter seat other
  rw [hring] at h hmem
  have hother' : other ∈ others := by simpa [hne] using hmem
  rw [List.find?_append] at h
  cases hfind : others.find? p with
  | none => exact absurd hother (List.find?_eq_none.mp hfind other hother')
  | some first =>
    obtain rfl : first = found := by simpa [hfind] using h
    exact fun heq => hseat (heq ▸ List.mem_of_find?_eq_some hfind)

/-- The search after a seat goes on where the search that met it left off, and ends
with the seats met before. -/
theorem ringAfter_of_append {start : ℕ} {met later : List (Fin n)} {seat : Fin n}
    (h : ringAfter n start = met ++ seat :: later) :
    ringAfter n seat = later ++ (met ++ [seat]) := by
  have hrotate : (ringAfter n start).rotate (met.length + 1) = later ++ (met ++ [seat]) := by
    rw [h, show met ++ seat :: later = (met ++ [seat]) ++ later by simp,
      show met.length + 1 = (met ++ [seat]).length by simp, List.rotate_append_length_eq]
  have hseat : (seat : ℕ) = (start + (met.length + 1)) % n := by
    have hget : (ringAfter n start)[met.length]? = some seat := by simp [h]
    obtain ⟨hlt, hget⟩ := List.getElem?_eq_some_iff.mp hget
    rw [← hget]
    simp [ringAfter]
  rw [← hrotate]
  have hlength : (ringAfter n seat).length =
      ((ringAfter n start).rotate (met.length + 1)).length := by
    rw [List.length_rotate, length_ringAfter, length_ringAfter]
  refine List.ext_getElem hlength fun k hk _ => Fin.ext ?_
  rw [List.getElem_rotate]
  simp only [ringAfter, List.getElem_ofFn, List.length_ofFn, hseat]
  calc ((start + (met.length + 1)) % n + (k + 1)) % n
      = (start + 1 + (k + (met.length + 1))) % n := by
        rw [Nat.mod_add_mod]
        congr 1
        omega
    _ = (start + 1 + (k + (met.length + 1)) % n) % n := by rw [Nat.add_mod_mod]
    _ = (start + ((k + (met.length + 1)) % n + 1)) % n := by
        congr 1
        omega

/-- The first two seats that qualify are found one after the other. -/
theorem find?_ringAfter_of_filter {start : ℕ} {p : Fin n → Bool} {first second : Fin n}
    {others : List (Fin n)} (h : (ringAfter n start).filter p = first :: second :: others) :
    (ringAfter n start).find? p = some first ∧ (ringAfter n first).find? p = some second := by
  constructor
  · rw [← List.head?_filter, h, List.head?_cons]
  · obtain ⟨met, later, hring, hmet, -, hlater⟩ := List.filter_eq_cons_iff.mp h
    rw [ringAfter_of_append hring, List.find?_append, ← List.head?_filter, hlater,
      List.head?_cons, Option.some_or]

/-- Every seat that qualifies is met once. -/
theorem length_filter_ringAfter (start : ℕ) (p : Fin n → Bool) :
    ((ringAfter n start).filter p).length = (Finset.univ.filter fun i => p i).card := by
  rw [← List.toFinset_card_of_nodup ((nodup_ringAfter start).filter p)]
  congr 1
  ext seat
  simp [mem_ringAfter]

/-- The first seat in index order that qualifies, if any. -/
theorem find?_finRange_eq_none_iff (p : Fin n → Bool) :
    (List.finRange n).find? p = none ↔ ∀ seat, p seat = false := by
  rw [List.find?_eq_none]
  exact ⟨fun h seat => by simpa using h seat (List.mem_finRange seat),
    fun h seat _ => by simp [h seat]⟩

end VibePoker.Math
