import Mathlib.Algebra.BigOperators.Group.Finset.Basic
import Mathlib.Algebra.BigOperators.Ring.List
import Mathlib.Algebra.Order.Field.Rat
import Mathlib.Algebra.Order.BigOperators.Group.List
import Mathlib.Tactic.Linarith
import Mathlib.Tactic.Ring

/-!
# Finite distributions

A distribution is a list of outcomes with rational weights that add up to one. It can be
computed, and what matters of it are its expectations: two distributions that agree on these
may list their outcomes differently.

## Main definitions

* `FinDist` — finite distributions, a monad
* `FinDist.expect` — the expectation of a function of the outcome
* `FinDist.Surely` — what holds of every listed outcome
* `FinDist.Yields` — a program that may fail does not, and comes to a given distribution

## Main results

* `expect_bind` — an expectation in two stages
* `expect_pos` — a function that is surely positive has a positive expectation
-/

namespace VibePoker.Math

/-- Outcomes with their weights. -/
structure FinDist (α : Type*) where
  outcomes : List (α × ℚ)
  nonneg : ∀ o ∈ outcomes, 0 ≤ o.2
  total : (outcomes.map Prod.snd).sum = 1

namespace FinDist

universe u

variable {α β : Type u}

/-- The expectation of a function of the outcome. -/
def expect (d : FinDist α) (f : α → ℚ) : ℚ := (d.outcomes.map fun o => o.2 * f o.1).sum

/-- Every listed outcome satisfies `P`. -/
def Surely (d : FinDist α) (P : α → Prop) : Prop := ∀ o ∈ d.outcomes, P o.1

/-- The single outcome `a`. -/
def single (a : α) : FinDist α where
  outcomes := [(a, 1)]
  nonneg := by simp
  total := by simp

/-- The weights of a list of outcomes. -/
def ofWeights (outcomes : List α) (weight : α → ℚ) (hnonneg : ∀ a ∈ outcomes, 0 ≤ weight a)
    (htotal : (outcomes.map weight).sum = 1) : FinDist α where
  outcomes := outcomes.map fun a => (a, weight a)
  nonneg := by simpa using hnonneg
  total := by rwa [List.map_map]

theorem sum_flatMap (l : List α) (f : α → List ℚ) :
    (l.flatMap f).sum = (l.map fun a => (f a).sum).sum := by
  induction l with
  | nil => rfl
  | cons a l ih => rw [List.flatMap_cons, List.sum_append, ih, List.map_cons, List.sum_cons]

/-- One outcome after another. -/
def andThen (d : FinDist α) (next : α → FinDist β) : FinDist β where
  outcomes := d.outcomes.flatMap fun o => (next o.1).outcomes.map fun o' => (o'.1, o.2 * o'.2)
  nonneg := by
    intro o ho
    obtain ⟨o₁, ho₁, ho⟩ := List.mem_flatMap.mp ho
    obtain ⟨o₂, ho₂, rfl⟩ := List.mem_map.mp ho
    exact mul_nonneg (d.nonneg o₁ ho₁) ((next o₁.1).nonneg o₂ ho₂)
  total := by
    rw [List.map_flatMap, sum_flatMap]
    refine Eq.trans (congrArg List.sum (List.map_congr_left fun o _ => ?_)) d.total
    calc (((next o.1).outcomes.map fun o' => (o'.1, o.2 * o'.2)).map Prod.snd).sum
        = ((next o.1).outcomes.map fun o' => o.2 * o'.2).sum := by rw [List.map_map]; rfl
      _ = o.2 * ((next o.1).outcomes.map Prod.snd).sum := List.sum_map_mul_left ..
      _ = o.2 := by rw [(next o.1).total, mul_one]

instance : Monad FinDist where
  pure := single
  bind := andThen

/-- The outcomes seen through `f`. -/
def image (f : α → β) (d : FinDist α) : FinDist β where
  outcomes := d.outcomes.map fun o => (f o.1, o.2)
  nonneg := by
    intro o ho
    obtain ⟨o', ho', rfl⟩ := List.mem_map.mp ho
    exact d.nonneg o' ho'
  total := by
    rw [List.map_map]
    exact d.total

/-! ## Seeing through a function -/

theorem eq_of_outcomes {d d' : FinDist α} (h : d.outcomes = d'.outcomes) : d = d' := by
  cases d
  cases d'
  cases h
  rfl

theorem image_bind {γ : Type u} (f : β → γ) (d : FinDist α) (next : α → FinDist β) :
    image f (d >>= next) = d >>= fun a => image f (next a) := by
  refine eq_of_outcomes ?_
  change (d.outcomes.flatMap _).map _ = d.outcomes.flatMap _
  rw [List.map_flatMap]
  refine List.flatMap_congr fun o _ => ?_
  change ((next o.1).outcomes.map _).map _ = ((next o.1).outcomes.map _).map _
  rw [List.map_map, List.map_map]
  rfl

theorem bind_image {γ : Type u} (f : α → β) (d : FinDist α) (next : β → FinDist γ) :
    image f d >>= next = d >>= fun a => next (f a) := by
  refine eq_of_outcomes ?_
  change (d.outcomes.map _).flatMap _ = d.outcomes.flatMap _
  rw [List.flatMap_map]

theorem expect_image (f : α → β) (d : FinDist α) (g : β → ℚ) :
    (image f d).expect g = d.expect fun a => g (f a) := by
  rw [expect, image, List.map_map]
  rfl

theorem surely_image {f : α → β} {d : FinDist α} {P : β → Prop} :
    (image f d).Surely P ↔ d.Surely fun a => P (f a) := by
  rw [Surely, image, List.forall_mem_map]
  rfl

/-! ## Laws -/

theorem pure_then (a : α) (next : α → FinDist β) : pure a >>= next = next a := by
  refine eq_of_outcomes ?_
  change ([(a, (1 : ℚ))].flatMap fun o =>
    (next o.1).outcomes.map fun o' => (o'.1, o.2 * o'.2)) = (next a).outcomes
  rw [List.flatMap_singleton]
  refine (List.map_congr_left fun o _ => ?_).trans (List.map_id _)
  rw [one_mul]
  rfl

theorem then_assoc {γ : Type u} (d : FinDist α) (next : α → FinDist β) (last : β → FinDist γ) :
    d >>= next >>= last = d >>= fun a => next a >>= last := by
  refine eq_of_outcomes ?_
  change (d.outcomes.flatMap fun o => _).flatMap _ = d.outcomes.flatMap _
  rw [List.flatMap_assoc]
  refine List.flatMap_congr fun o _ => ?_
  change ((next o.1).outcomes.map _).flatMap _ = ((next o.1).outcomes.flatMap _).map _
  rw [List.flatMap_map, List.map_flatMap]
  refine List.flatMap_congr fun o' _ => ?_
  change (last o'.1).outcomes.map _ = ((last o'.1).outcomes.map _).map _
  rw [List.map_map]
  exact List.map_congr_left fun o'' _ => Prod.ext rfl (mul_assoc o.2 o'.2 o''.2)

theorem then_pure (d : FinDist α) : d >>= pure = d := by
  refine eq_of_outcomes ?_
  change (d.outcomes.flatMap fun o => [(o.1, o.2 * 1)]) = d.outcomes
  simp only [mul_one, Prod.mk.eta, List.flatMap_singleton']

instance : LawfulMonad FinDist :=
  LawfulMonad.mk' FinDist (fun d => then_pure d) pure_then then_assoc

/-! ## Expectations -/

@[simp] theorem expect_pure (a : α) (f : α → ℚ) : (pure a : FinDist α).expect f = f a := by
  change ([((a, 1) : α × ℚ)].map _).sum = _
  simp

theorem expect_ofWeights {outcomes : List α} {weight : α → ℚ}
    (hnonneg : ∀ a ∈ outcomes, 0 ≤ weight a) (htotal : (outcomes.map weight).sum = 1)
    (f : α → ℚ) :
    (ofWeights outcomes weight hnonneg htotal).expect f =
      (outcomes.map fun a => weight a * f a).sum := by
  rw [expect, ofWeights, List.map_map]
  rfl

theorem expect_congr {d : FinDist α} {f g : α → ℚ} (h : d.Surely fun a => f a = g a) :
    d.expect f = d.expect g :=
  congrArg List.sum (List.map_congr_left fun o ho => congrArg (o.2 * ·) (h o ho))

theorem expect_const (d : FinDist α) (c : ℚ) : (d.expect fun _ => c) = c := by
  rw [expect, List.sum_map_mul_right, d.total, one_mul]

theorem expect_add (d : FinDist α) (f g : α → ℚ) :
    (d.expect fun a => f a + g a) = d.expect f + d.expect g := by
  rw [expect, expect, expect, ← List.sum_map_add]
  exact congrArg List.sum (List.map_congr_left fun o _ => mul_add o.2 _ _)

theorem expect_mul_right (d : FinDist α) (f : α → ℚ) (c : ℚ) :
    (d.expect fun a => f a * c) = d.expect f * c := by
  rw [expect, expect, ← List.sum_map_mul_right]
  exact congrArg List.sum (List.map_congr_left fun o _ => (mul_assoc o.2 _ c).symm)

theorem expect_mul_left (d : FinDist α) (c : ℚ) (f : α → ℚ) :
    (d.expect fun a => c * f a) = c * d.expect f := by
  simp only [mul_comm c]
  exact d.expect_mul_right f c

theorem expect_sub (d : FinDist α) (f g : α → ℚ) :
    (d.expect fun a => f a - g a) = d.expect f - d.expect g := by
  have hneg : (d.expect fun a => g a * -1) = d.expect g * -1 := expect_mul_right d g (-1)
  calc (d.expect fun a => f a - g a)
      = d.expect fun a => f a + g a * -1 := by simp only [mul_neg_one, sub_eq_add_neg]
    _ = d.expect f - d.expect g := by rw [expect_add, hneg, mul_neg_one, sub_eq_add_neg]

theorem expect_sub_const (d : FinDist α) (f : α → ℚ) (c : ℚ) :
    (d.expect fun a => f a - c) = d.expect f - c := by rw [expect_sub, expect_const]

theorem expect_sum {γ : Type*} (d : FinDist α) (s : Finset γ) (f : γ → α → ℚ) :
    (d.expect fun a => ∑ c ∈ s, f c a) = ∑ c ∈ s, d.expect (f c) := by
  classical
  induction s using Finset.induction_on with
  | empty => exact d.expect_const 0
  | insert c s hc ih =>
    rw [Finset.sum_insert hc, ← ih, ← expect_add]
    exact expect_congr fun o _ => Finset.sum_insert hc

theorem expect_list_sum {γ : Type*} (d : FinDist α) (l : List γ) (f : γ → α → ℚ) :
    (d.expect fun a => (l.map fun c => f c a).sum) = (l.map fun c => d.expect (f c)).sum := by
  induction l with
  | nil => exact d.expect_const 0
  | cons c l ih =>
    simp only [List.map_cons, List.sum_cons]
    rw [expect_add, ih]

theorem expect_le {d : FinDist α} {f g : α → ℚ} (h : d.Surely fun a => f a ≤ g a) :
    d.expect f ≤ d.expect g :=
  List.sum_le_sum fun o ho => mul_le_mul_of_nonneg_left (h o ho) (d.nonneg o ho)

/-- The square of an average is at most the average of the squares. -/
theorem sq_expect_le (d : FinDist α) (f : α → ℚ) : d.expect f ^ 2 ≤ d.expect fun a => f a ^ 2 := by
  have hnonneg : 0 ≤ d.expect fun a => (f a - d.expect f) ^ 2 := by
    calc (0 : ℚ) = d.expect fun _ => 0 := (d.expect_const 0).symm
      _ ≤ _ := expect_le fun o _ => sq_nonneg (f o.1 - d.expect f)
  have hsplit : (d.expect fun a => (f a - d.expect f) ^ 2) =
      (d.expect fun a => f a ^ 2) - d.expect f ^ 2 := by
    calc (d.expect fun a => (f a - d.expect f) ^ 2)
        = d.expect fun a => f a ^ 2 + f a * (-2 * d.expect f) + d.expect f ^ 2 :=
          expect_congr fun o _ => by ring
      _ = _ := by
          rw [expect_add, expect_add, expect_mul_right, expect_const]
          ring
  rw [hsplit] at hnonneg
  exact sub_nonneg.mp hnonneg

theorem expect_bind (d : FinDist α) (next : α → FinDist β) (f : β → ℚ) :
    (d >>= next).expect f = d.expect fun a => (next a).expect f := by
  change ((d.outcomes.flatMap fun o =>
    (next o.1).outcomes.map fun o' => (o'.1, o.2 * o'.2)).map fun o => o.2 * f o.1).sum = _
  rw [List.map_flatMap, sum_flatMap]
  refine congrArg List.sum (List.map_congr_left fun o _ => ?_)
  calc (((next o.1).outcomes.map fun o' => (o'.1, o.2 * o'.2)).map fun o => o.2 * f o.1).sum
      = ((next o.1).outcomes.map fun o' => o.2 * (o'.2 * f o'.1)).sum := by
        rw [List.map_map]
        exact congrArg List.sum (List.map_congr_left fun o' _ => mul_assoc o.2 o'.2 _)
    _ = o.2 * (next o.1).expect f := List.sum_map_mul_left ..

/-- A function that is surely positive has a positive expectation. -/
theorem expect_pos {d : FinDist α} {f : α → ℚ} (h : d.Surely fun a => 0 < f a) : 0 < d.expect f := by
  obtain ⟨weight, hmem, hweight⟩ := List.exists_mem_ne_zero_of_sum_ne_zero
    (d.total.trans_ne one_ne_zero)
  obtain ⟨o, ho, rfl⟩ := List.mem_map.mp hmem
  have hnonneg : ∀ term ∈ d.outcomes.map fun o => o.2 * f o.1, 0 ≤ term := by
    intro term hterm
    obtain ⟨o, ho, rfl⟩ := List.mem_map.mp hterm
    exact mul_nonneg (d.nonneg o ho) (h o ho).le
  calc 0 < o.2 * f o.1 := mul_pos ((d.nonneg o ho).lt_of_ne' hweight) (h o ho)
    _ ≤ d.expect f := List.single_le_sum hnonneg _ (List.mem_map_of_mem ho)

/-! ## What is sure -/

theorem surely_pure {a : α} {P : α → Prop} (h : P a) : (pure a : FinDist α).Surely P := by
  intro o ho
  rw [List.mem_singleton.mp ho]
  exact h

theorem surely_ofWeights {outcomes : List α} {weight : α → ℚ}
    {hnonneg : ∀ a ∈ outcomes, 0 ≤ weight a} {htotal : (outcomes.map weight).sum = 1}
    {P : α → Prop} (h : ∀ a ∈ outcomes, P a) :
    (ofWeights outcomes weight hnonneg htotal).Surely P := by
  intro o ho
  obtain ⟨a, ha, rfl⟩ := List.mem_map.mp ho
  exact h a ha

theorem Surely.bind {d : FinDist α} {next : α → FinDist β} {P : α → Prop} {Q : β → Prop}
    (h : d.Surely P) (hnext : ∀ a, P a → (next a).Surely Q) : (d >>= next).Surely Q := by
  intro o ho
  obtain ⟨o₁, ho₁, ho⟩ := List.mem_flatMap.mp ho
  obtain ⟨o₂, ho₂, rfl⟩ := List.mem_map.mp ho
  exact hnext o₁.1 (h o₁ ho₁) o₂ ho₂

theorem Surely.mono {d : FinDist α} {P Q : α → Prop} (h : d.Surely P) (hle : ∀ a, P a → Q a) :
    d.Surely Q := fun o ho => hle o.1 (h o ho)

theorem Surely.and {d : FinDist α} {P Q : α → Prop} (h : d.Surely P) (h' : d.Surely Q) :
    d.Surely fun a => P a ∧ Q a := fun o ho => ⟨h o ho, h' o ho⟩

/-! ## Programs that may fail -/

section Yields

variable {α' β' : Type u} {v : α → α'} {w : β → β'} {x : OptionT FinDist α} {y : FinDist α'}

/-- The program `x` does not fail, and its outcomes seen through `v` are those of `y`. -/
def Yields (v : α → α') (x : OptionT FinDist α) (y : FinDist α') : Prop :=
  image (Option.map v) x.run = image some y

theorem Yields.pure (a : α) : Yields v (Pure.pure a) (Pure.pure (v a)) := rfl

theorem lift_bind_run (d : FinDist α) (f : α → OptionT FinDist β) :
    (OptionT.lift d >>= f).run = d >>= fun a => (f a).run := by
  refine eq_of_outcomes ?_
  change (d.outcomes.flatMap fun o => [(some o.1, o.2 * 1)]).flatMap _ = d.outcomes.flatMap _
  rw [List.flatMap_assoc]
  refine List.flatMap_congr fun o _ => ?_
  rw [List.flatMap_singleton, mul_one]
  rfl

theorem Yields.lift_bind {d : FinDist α} {f : α → OptionT FinDist β} {g : α → FinDist β'}
    (h : d.Surely fun a => Yields w (f a) (g a)) :
    Yields w (OptionT.lift d >>= f) (d >>= g) := by
  rw [Yields, lift_bind_run, image_bind, image_bind]
  refine eq_of_outcomes (List.flatMap_congr fun o ho => ?_)
  exact congrArg (fun next : FinDist (Option β') => next.outcomes.map fun o' => (o'.1, o.2 * o'.2))
    (h o ho)

theorem Yields.bind {f : α → OptionT FinDist β} {g : α' → FinDist β'} (h : Yields v x y)
    (hf : ∀ a, Yields w (f a) (g (v a))) : Yields w (x >>= f) (y >>= g) := by
  -- what follows an outcome that is seen through `v`
  let follow : Option α' → FinDist (Option β') := fun o => o.elim (Pure.pure none) fun a => image some (g a)
  have hfollow : ∀ o : Option α, image (Option.map w) (o.elim (Pure.pure none) fun a => (f a).run) =
      follow (o.map v) := by
    intro o
    cases o with
    | none => rfl
    | some a => exact hf a
  have hrun : (x >>= f).run = x.run >>= fun o => o.elim (Pure.pure none) fun a => (f a).run := by
    have hthen : (fun o : Option α => match o with
        | some a => (f a).run
        | none => Pure.pure none) = fun o => o.elim (Pure.pure none) fun a => (f a).run := by
      funext o
      cases o <;> rfl
    rw [← hthen]
    rfl
  calc image (Option.map w) (x >>= f).run
      = x.run >>= fun o => follow (o.map v) := by
        rw [hrun, image_bind]
        exact congrArg (x.run >>= ·) (funext hfollow)
    _ = image some y >>= follow := by rw [← bind_image, h]
    _ = image some (y >>= g) := by
        rw [bind_image, image_bind]
        rfl

/-- Programs that surely return, one after the other. -/
theorem surely_run_bind {x : OptionT FinDist α} {f : α → OptionT FinDist β} {P : α → Prop}
    {Q : β → Prop} (h : x.run.Surely fun o => ∃ a, o = some a ∧ P a)
    (hf : ∀ a, P a → (f a).run.Surely fun o => ∃ b, o = some b ∧ Q b) :
    (x >>= f).run.Surely fun o => ∃ b, o = some b ∧ Q b := by
  rw [OptionT.run_bind]
  refine h.bind fun o ho => ?_
  obtain ⟨a, rfl, ha⟩ := ho
  exact hf a ha

theorem Yields.surely (h : Yields v x y) {P : α' → Prop} (hP : y.Surely P) :
    x.run.Surely fun o => ∃ a, o = some a ∧ P (v a) := by
  have hseen : (image (Option.map v) x.run).Surely fun o => ∃ a', o = some a' ∧ P a' := by
    rw [h, surely_image]
    exact hP.mono fun a ha => ⟨a, rfl, ha⟩
  refine (surely_image.mp hseen).mono fun o ho => ?_
  obtain ⟨a', heq, ha'⟩ := ho
  obtain ⟨a, rfl, rfl⟩ := Option.map_eq_some_iff.mp heq
  exact ⟨a, rfl, ha'⟩

theorem Yields.surely_isSome (h : Yields v x y) : x.run.Surely fun o => o.isSome :=
  (h.surely (P := fun _ => True) fun _ _ => trivial).mono fun o ho => by
    obtain ⟨a, rfl, -⟩ := ho
    rfl

theorem Yields.expect (h : Yields v x y) (f : α' → ℚ) (failed : ℚ) :
    (x.run.expect fun o => o.elim failed fun a => f (v a)) = y.expect f := by
  calc (x.run.expect fun o => o.elim failed fun a => f (v a))
      = (image (Option.map v) x.run).expect fun o => o.elim failed f := by
        rw [expect_image]
        exact congrArg x.run.expect (funext fun o => by cases o <;> rfl)
    _ = y.expect f := by
        rw [h, expect_image]
        rfl

end Yields

end FinDist

end VibePoker.Math
