import Mathlib.Algebra.BigOperators.Fin

/-!
# Checked arithmetic

Arithmetic on words of `w` bits that fails when a result does not fit its word. An
operation that does not fail computes what exact arithmetic computes, so a program that
runs through with checks runs as it does with exact numbers.

## Main definitions

* `Approximates` — a result that is exact, if there is one
* `asWord`, `asSigned`, `wordOfInt` — a number, if an unsigned or a signed word holds it
* `addWord`, `mulWord`, `subWord`, `sumWord` — unsigned arithmetic
* `collect` — a family of results, if none of them fails

## Main results

* `Approximates.bind` — a program approximates what it computes if each of its steps does
* `approximates_addWord`, `approximates_mulWord`, `approximates_subWord`, `approximates_sumWord` —
  what does not fail is exact
* `sumWord_of_lt` — adding up in a loop does not fail if the total fits
* `map_of_mapM` — the results of a list, one for each element
-/

namespace VibePoker.CS

/-! ## Results that are exact if there are any -/

/-- If `o` does not fail, its result is `a`. -/
def Approximates {α : Type*} (o : Option α) (a : α) : Prop := ∀ x, o = some x → x = a

section Approximates

variable {α β : Type*} {o : Option α} {a : α} {b : β}

theorem approximates_some (a : α) : Approximates (some a) a := fun _ h => (Option.some.inj h).symm

theorem approximates_none (a : α) : Approximates none a := fun _ h => by cases h

theorem Approximates.eq_none_or (h : Approximates o a) : o = none ∨ o = some a := by
  cases ho : o with
  | none => exact Or.inl rfl
  | some x => exact Or.inr (by rw [h x ho])

/-- A step and what follows it. -/
theorem Approximates.bind {f : α → Option β} (h : Approximates o a)
    (hf : Approximates (f a) b) : Approximates (o.bind f) b := by
  intro y hy
  obtain ⟨x, hx, hfx⟩ := Option.bind_eq_some_iff.mp hy
  obtain rfl := h x hx
  exact hf y hfx

theorem Approximates.map (f : α → β) (h : Approximates o a) : Approximates (o.map f) (f a) := by
  intro y hy
  obtain ⟨x, hx, rfl⟩ := Option.map_eq_some_iff.mp hy
  rw [h x hx]

end Approximates

/-! ## Casts -/

/-- `x`, if an unsigned word of `w` bits holds it. -/
def asWord (w x : ℕ) : Option ℕ := if x < 2 ^ w then some x else none

/-- `x`, if a signed word of `w + 1` bits holds it. -/
def asSigned (w : ℕ) (x : ℤ) : Option ℤ := if -2 ^ w ≤ x ∧ x < 2 ^ w then some x else none

/-- The unsigned word of `w` bits that `x` is. -/
def wordOfInt (w : ℕ) (x : ℤ) : Option ℕ := if 0 ≤ x then asWord w x.toNat else none

section Casts

variable {w x : ℕ} {z : ℤ}

theorem asWord_of_lt (h : x < 2 ^ w) : asWord w x = some x := if_pos h

theorem asSigned_of_mem (hlow : -2 ^ w ≤ z) (hhigh : z < 2 ^ w) : asSigned w z = some z :=
  if_pos ⟨hlow, hhigh⟩

theorem wordOfInt_of_mem (hlow : 0 ≤ z) (hhigh : z < 2 ^ w) : wordOfInt w z = some z.toNat := by
  rw [wordOfInt, if_pos hlow, asWord_of_lt]
  rw [Int.toNat_lt hlow]
  exact_mod_cast hhigh

theorem approximates_asWord (w x : ℕ) : Approximates (asWord w x) x := by
  intro y h
  rw [asWord, Option.ite_none_right_eq_some] at h
  exact (Option.some.inj h.2).symm

theorem mem_of_asSigned {y : ℤ} (h : asSigned w z = some y) :
    y = z ∧ -2 ^ w ≤ z ∧ z < 2 ^ w := by
  rw [asSigned, Option.ite_none_right_eq_some] at h
  exact ⟨(Option.some.inj h.2).symm, h.1⟩

theorem approximates_wordOfInt (w : ℕ) (z : ℤ) : Approximates (wordOfInt w z) z.toNat := by
  intro y h
  rw [wordOfInt, Option.ite_none_right_eq_some] at h
  exact approximates_asWord w _ y h.2

theorem lt_of_wordOfInt {y : ℕ} (h : wordOfInt w z = some y) : y < 2 ^ w := by
  rw [wordOfInt, Option.ite_none_right_eq_some, asWord, Option.ite_none_right_eq_some] at h
  obtain ⟨-, hlt, heq⟩ := h
  exact Option.some.inj heq ▸ hlt

end Casts

/-! ## Operations -/

def addWord (w a b : ℕ) : Option ℕ := asWord w (a + b)

def mulWord (w a b : ℕ) : Option ℕ := asWord w (a * b)

def subWord (a b : ℕ) : Option ℕ := if b ≤ a then some (a - b) else none

/-- Add up a list from the left. -/
def sumWord (w : ℕ) (l : List ℕ) : Option ℕ := l.foldlM (addWord w) 0

section Operations

variable {w a b : ℕ}

theorem addWord_of_lt (h : a + b < 2 ^ w) : addWord w a b = some (a + b) := asWord_of_lt h

theorem mulWord_of_lt (h : a * b < 2 ^ w) : mulWord w a b = some (a * b) := asWord_of_lt h

theorem subWord_of_le (h : b ≤ a) : subWord a b = some (a - b) := if_pos h

theorem approximates_addWord (w a b : ℕ) : Approximates (addWord w a b) (a + b) :=
  approximates_asWord w _

theorem approximates_mulWord (w a b : ℕ) : Approximates (mulWord w a b) (a * b) :=
  approximates_asWord w _

theorem approximates_subWord (a b : ℕ) : Approximates (subWord a b) (a - b) := by
  intro c h
  rw [subWord, Option.ite_none_right_eq_some] at h
  exact (Option.some.inj h.2).symm

theorem approximates_foldlM_addWord (w a : ℕ) (l : List ℕ) :
    Approximates (l.foldlM (addWord w) a) (a + l.sum) := by
  induction l generalizing a with
  | nil => exact approximates_some a
  | cons b l ih =>
    rw [List.foldlM_cons, List.sum_cons, ← Nat.add_assoc]
    exact (approximates_addWord w a b).bind (ih (a + b))

theorem approximates_sumWord (w : ℕ) (l : List ℕ) : Approximates (sumWord w l) l.sum := by
  have hfold := approximates_foldlM_addWord w 0 l
  rwa [Nat.zero_add] at hfold

/-- The partial sums of a list fit if the total does. -/
theorem foldlM_addWord {l : List ℕ} (h : a + l.sum < 2 ^ w) :
    l.foldlM (addWord w) a = some (a + l.sum) := by
  induction l generalizing a with
  | nil => rfl
  | cons b l ih =>
    rw [List.sum_cons, ← Nat.add_assoc] at h ⊢
    have hfirst : addWord w a b = some (a + b) := addWord_of_lt (by omega)
    rw [List.foldlM_cons, hfirst]
    exact ih h

theorem sumWord_of_lt {l : List ℕ} (h : l.sum < 2 ^ w) : sumWord w l = some l.sum := by
  have hfold := @foldlM_addWord w 0 l
  rw [Nat.zero_add] at hfold
  exact hfold h

theorem sumWord_ofFn_of_lt {n : ℕ} {f : Fin n → ℕ} (h : ∑ i, f i < 2 ^ w) :
    sumWord w (List.ofFn f) = some (∑ i, f i) := by
  rw [← List.sum_ofFn] at h ⊢
  exact sumWord_of_lt h

end Operations

/-! ## Families -/

/-- The results of a family, if none of them fails. -/
def collect {α : Type*} {n : ℕ} (f : Fin n → Option α) : Option (Fin n → α) :=
  if h : ∀ i, (f i).isSome then some fun i => (f i).get (h i) else none

theorem collect_eq_some {α : Type*} {n : ℕ} {f : Fin n → Option α} {g : Fin n → α}
    (h : ∀ i, f i = some (g i)) : collect f = some g := by
  have hsome : ∀ i, (f i).isSome := fun i => by rw [h i]; rfl
  rw [collect, dif_pos hsome]
  congr 1
  funext i
  simp only [h i, Option.get_some]

theorem of_collect {α : Type*} {n : ℕ} {f : Fin n → Option α} {g : Fin n → α}
    (h : collect f = some g) (i : Fin n) : f i = some (g i) := by
  rw [collect, Option.dite_none_right_eq_some] at h
  obtain ⟨hsome, hg⟩ := h
  rw [← Option.some.inj hg, Option.some_get]

theorem approximates_collect {α : Type*} {n : ℕ} {f : Fin n → Option α} {g : Fin n → α}
    (h : ∀ i, Approximates (f i) (g i)) : Approximates (collect f) g :=
  fun _ hx => funext fun i => h i _ (of_collect hx i)

/-- What the results of a list have in common with the elements they are results of. -/
theorem map_of_mapM {α β γ : Type*} {f : α → Option β} {g : β → γ} {g' : α → γ}
    (hg : ∀ x y, f x = some y → g y = g' x) {l : List α} {l' : List β}
    (h : l.mapM f = some l') : l'.map g = l.map g' := by
  induction l generalizing l' with
  | nil =>
    obtain rfl := Option.some.inj h
    rfl
  | cons x l ih =>
    simp only [List.mapM_cons, Option.bind_eq_bind, Option.bind_eq_some_iff] at h
    obtain ⟨y, hy, ys, hys, hl'⟩ := h
    obtain rfl := Option.some.inj hl'
    rw [List.map_cons, List.map_cons, hg x y hy, ih hys]

theorem approximates_mapM {α β : Type*} {f : α → Option β} {g : α → β}
    (h : ∀ x, Approximates (f x) (g x)) (l : List α) : Approximates (l.mapM f) (l.map g) := by
  intro l' hl'
  have hmap := map_of_mapM (g := fun y => y) (fun x y hy => h x y hy) hl'
  rwa [List.map_id'] at hmap

theorem map_some_of_mapM {α β : Type*} {f : α → Option β} {l : List α} {l' : List β}
    (h : l.mapM f = some l') : l'.map some = l.map f :=
  map_of_mapM (fun _ _ hx => hx.symm) h

end VibePoker.CS
