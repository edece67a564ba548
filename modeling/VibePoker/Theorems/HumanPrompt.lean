import VibePoker.Agent.Human

/-!
# The human prompt

The prompt is left with a legal command, or with a fold when reading is an error. The end of
the input is neither: it is read as an empty line, and an empty line is no command.

## Main definitions

* `PromptEnds` — the prompt returns the first command, or a fold without one

## Main results

* `promptEnds_iff` — it does so exactly if a line is a command or reading fails
* `end_of_input_not_folded` — at the end of the input it goes on
-/

namespace VibePoker.Agent

open VibePoker.CS VibePoker.Game

/-! ## The statement -/

/-- The prompt returns the first line that is a command, or a fold if there is none, and what it
returns is legal. -/
def PromptEnds (tables : CaseTables) (la : LegalActions) (stdin : Stdin) : Prop :=
  ∃ action, (∃ fuel, readAction tables la fuel stdin = some action) ∧
    action = (firstCommand tables la stdin.lines).getD .fold ∧ la.isLegal action = true

/-! ## Exactness -/

variable {tables : CaseTables} {la : LegalActions}

theorem firstCommand_ne_none_iff {lines : List (List Char)} :
    firstCommand tables la lines ≠ none ↔
      ∃ line ∈ lines, ∃ action, parseLine tables la line = .ok action := by
  rw [firstCommand, Ne, List.findSome?_eq_none_iff]
  push Not
  apply exists_congr
  intro line
  apply and_congr_right
  intro _
  cases parseLine tables la line <;> simp [Except.toOption]

/-- What the prompt returns is the first command, or a fold. -/
theorem eq_of_returns {stdin : Stdin} {action : Action}
    (h : Returns (readPass tables la) stdin action) :
    action = (firstCommand tables la stdin.lines).getD .fold ∧ la.isLegal action = true := by
  rw [returns_readPass_iff] at h
  cases hfirst : firstCommand tables la stdin.lines with
  | none =>
    rw [hfirst] at h
    obtain ⟨-, rfl⟩ := h
    exact ⟨rfl, rfl⟩
  | some command =>
    rw [hfirst] at h
    obtain rfl : action = command := h
    exact ⟨rfl, isLegal_of_firstCommand hfirst⟩

/-- The prompt ends as it should exactly if one of the lines is a command, or reading fails. -/
theorem promptEnds_iff (tables : CaseTables) (la : LegalActions) (stdin : Stdin) :
    PromptEnds tables la stdin ↔
      (∃ line ∈ stdin.lines, ∃ action, parseLine tables la line = .ok action) ∨
        stdin.fails = true := by
  rw [← firstCommand_ne_none_iff]
  constructor
  · rintro ⟨action, hreturns, -, -⟩
    have hcases := returns_readPass_iff.mp hreturns
    cases hfirst : firstCommand tables la stdin.lines with
    | none =>
      rw [hfirst] at hcases
      exact Or.inr hcases.1
    | some command => exact Or.inl (Option.some_ne_none command)
  · intro h
    have hreturns : ∃ action, Returns (readPass tables la) stdin action := by
      cases hfirst : firstCommand tables la stdin.lines with
      | none =>
        have hfails := h.resolve_left (· hfirst)
        refine ⟨.fold, returns_readPass_iff.mpr ?_⟩
        rw [hfirst]
        exact ⟨hfails, rfl⟩
      | some command =>
        refine ⟨command, returns_readPass_iff.mpr ?_⟩
        rw [hfirst]
    obtain ⟨action, haction⟩ := hreturns
    exact ⟨action, haction, eq_of_returns haction⟩

/-- Without any input, a player who may check, raise or go all-in is prompted forever. -/
theorem end_of_input_not_folded :
    ¬ ∃ tables, PromptEnds tables ⟨true, false, 0, true, 4, 100, 98⟩ ⟨[], false⟩ := by
  rintro ⟨tables, action, hreturns, -, -⟩
  have hcases := returns_readPass_iff.mp hreturns
  cases hcases.1

end VibePoker.Agent
