import Mathlib.Data.Nat.Notation

/-!
# Loops

A loop goes from state to state until one of its passes breaks with a result. It is run
for a number of passes; a loop that returns does so within some number of them.

## Main definitions

* `loop` — a bounded number of passes
* `Returns` — the loop breaks with a result

## Main results

* `returns_iff_of_continue`, `returns_iff_of_break` — one-step unfolding
* `not_returns` — an invariant under which each pass goes on rules out a result
-/

namespace VibePoker.CS

variable {σ α : Type*} {pass : σ → σ ⊕ α} {s s' : σ} {a b : α}

/-- At most `fuel` passes. A pass goes on with a state (`Sum.inl`) or breaks with a
result (`Sum.inr`). -/
def loop (pass : σ → σ ⊕ α) : ℕ → σ → Option α
  | 0, _ => none
  | fuel + 1, s =>
    match pass s with
    | .inl s' => loop pass fuel s'
    | .inr a => some a

/-- The loop breaks with `a`. -/
def Returns (pass : σ → σ ⊕ α) (s : σ) (a : α) : Prop := ∃ fuel, loop pass fuel s = some a

theorem loop_of_continue (h : pass s = .inl s') (fuel : ℕ) :
    loop pass (fuel + 1) s = loop pass fuel s' := by
  rw [loop, h]

theorem loop_of_break (h : pass s = .inr a) (fuel : ℕ) : loop pass (fuel + 1) s = some a := by
  rw [loop, h]

/-- One-step unfolding of a pass that goes on. -/
theorem returns_iff_of_continue (h : pass s = .inl s') :
    Returns pass s a ↔ Returns pass s' a := by
  constructor
  · rintro ⟨fuel, hfuel⟩
    cases fuel with
    | zero => cases hfuel
    | succ fuel => exact ⟨fuel, (loop_of_continue h fuel).symm.trans hfuel⟩
  · rintro ⟨fuel, hfuel⟩
    exact ⟨fuel + 1, (loop_of_continue h fuel).trans hfuel⟩

/-- One-step unfolding of a pass that breaks. -/
theorem returns_iff_of_break (h : pass s = .inr b) : Returns pass s a ↔ a = b := by
  constructor
  · rintro ⟨fuel, hfuel⟩
    cases fuel with
    | zero => cases hfuel
    | succ fuel => exact Option.some.inj (hfuel.symm.trans (loop_of_break h fuel))
  · rintro rfl
    exact ⟨1, loop_of_break h 0⟩

/-- While an invariant holds under which each pass goes on, no number of passes is enough. -/
theorem loop_eq_none (Inv : σ → Prop)
    (hkeep : ∀ s, Inv s → ∃ s', pass s = .inl s' ∧ Inv s') (hinit : Inv s) (fuel : ℕ) :
    loop pass fuel s = none := by
  induction fuel generalizing s with
  | zero => rfl
  | succ fuel ih =>
    obtain ⟨s', hpass, hinv⟩ := hkeep s hinit
    rw [loop_of_continue hpass, ih hinv]

theorem not_returns (Inv : σ → Prop)
    (hkeep : ∀ s, Inv s → ∃ s', pass s = .inl s' ∧ Inv s') (hinit : Inv s) :
    ¬ Returns pass s a := by
  rintro ⟨fuel, hfuel⟩
  rw [loop_eq_none Inv hkeep hinit fuel] at hfuel
  cases hfuel

end VibePoker.CS
