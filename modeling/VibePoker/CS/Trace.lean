import Mathlib.Data.List.Basic

/-!
# Traces of labelled transition systems

A run of a transition relation, with the labels of its steps. A property of all
runs is proved from what one step does: an invariant is kept by every step, a
ranking function goes down at every step.

## Main definitions

* `Trace` — the finite runs of a labelled step relation

## Main results

* `Trace.invariant` — what holds at the start and is kept by each step holds at
  the end
* `Trace.history` — the same for what relates the state to the labels so far
* `Trace.length_le` — a ranking function bounds the length of the runs
-/

namespace VibePoker.CS

/-- `Trace step s labels t`: the labels lead from `s` to `t`. -/
inductive Trace {σ α : Type*} (step : σ → α → σ → Prop) : σ → List α → σ → Prop
  | nil (s : σ) : Trace step s [] s
  | cons {s u t : σ} {a : α} {labels : List α} (head : step s a u) (tail : Trace step u labels t) :
      Trace step s (a :: labels) t

namespace Trace

variable {σ α : Type*} {step step' : σ → α → σ → Prop} {s t u : σ} {labels : List α}

theorem single {a : α} (h : step s a t) : Trace step s [a] t := cons h (nil t)

theorem append {later : List α} (h : Trace step s labels t) (hlater : Trace step t later u) :
    Trace step s (labels ++ later) u := by
  induction h with
  | nil => exact hlater
  | cons head _ ih => exact cons head (ih hlater)

/-- A run of a relation is a run of every larger one. -/
theorem mono (hle : ∀ s a t, step s a t → step' s a t) (h : Trace step s labels t) :
    Trace step' s labels t := by
  induction h with
  | nil => exact nil _
  | cons head _ ih => exact cons (hle _ _ _ head) ih

/-- The labels that a partial function follows are a run of its graph. -/
theorem of_foldlM {f : σ → α → Option σ} (h : labels.foldlM f s = some t) :
    Trace (fun s a t => f s a = some t) s labels t := by
  induction labels generalizing s with
  | nil =>
    obtain rfl := Option.some.inj h
    exact nil s
  | cons a labels ih =>
    rw [List.foldlM_cons] at h
    obtain ⟨u, hhead, htail⟩ := Option.bind_eq_some_iff.mp h
    exact cons hhead (ih htail)

/-- The same, for steps that are taken only where a condition holds. -/
theorem of_foldlM_ite {f : σ → α → Option σ} {cond : σ → α → Prop} [∀ s a, Decidable (cond s a)]
    (h : labels.foldlM (fun s a => if cond s a then f s a else none) s = some t) :
    Trace (fun s a t => cond s a ∧ f s a = some t) s labels t := by
  refine (of_foldlM h).mono fun s a t hstep => ?_
  split at hstep
  · exact ⟨‹_›, hstep⟩
  · cases hstep

/-- What each step keeps, a run keeps. -/
theorem invariant (Inv : σ → Prop) (hkeep : ∀ s a t, Inv s → step s a t → Inv t)
    (h : Trace step s labels t) (hinit : Inv s) : Inv t := by
  induction h with
  | nil => exact hinit
  | cons head _ ih => exact ih (hkeep _ _ _ hinit head)

/-- What holds of the labels so far and the state, and is kept by each step, holds at
the end of a run. -/
theorem history (Inv : List α → σ → Prop)
    (hkeep : ∀ past s a t, Inv past s → step s a t → Inv (past ++ [a]) t)
    (h : Trace step s labels t) (past : List α) (hinit : Inv past s) : Inv (past ++ labels) t := by
  induction h generalizing past with
  | nil =>
    rw [List.append_nil]
    exact hinit
  | cons head _ ih =>
    rw [List.append_cons]
    exact ih _ (hkeep _ _ _ _ hinit head)

/-- Along a run that starts in an invariant, the steps may be taken to start in
the invariant. -/
theorem restrict (Inv : σ → Prop) (hkeep : ∀ s a t, Inv s → step s a t → Inv t)
    (h : Trace step s labels t) (hinit : Inv s) :
    Trace (fun s a t => Inv s ∧ step s a t) s labels t := by
  induction h with
  | nil => exact nil _
  | cons head _ ih => exact cons ⟨hinit, head⟩ (ih (hkeep _ _ _ hinit head))

/-- A quantity that each step keeps is the same at both ends of a run. -/
theorem preserves {β : Type*} (f : σ → β) (hkeep : ∀ s a t, step s a t → f t = f s)
    (h : Trace step s labels t) : f t = f s :=
  h.invariant (fun u => f u = f s) (fun _ _ _ hu hstep => (hkeep _ _ _ hstep).trans hu) rfl

/-- A ranking function that goes down at each step bounds the length of a run. -/
theorem length_le (rank : σ → ℕ) (hdown : ∀ s a t, step s a t → rank t < rank s)
    (h : Trace step s labels t) : labels.length + rank t ≤ rank s := by
  induction h with
  | nil => simp
  | cons head _ ih =>
    have := hdown _ _ _ head
    simp only [List.length_cons]
    omega

/-- The labels determine the run of a functional relation. -/
theorem eq_of_functional (hfun : ∀ s a t t', step s a t → step s a t' → t = t')
    (h : Trace step s labels t) (h' : Trace step s labels u) : t = u := by
  induction h with
  | nil => cases h'; rfl
  | cons head _ ih =>
    cases h' with
    | cons head' tail' =>
      rw [hfun _ _ _ _ head' head] at tail'
      exact ih tail'

end Trace

end VibePoker.CS
