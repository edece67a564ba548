import Mathlib.Data.List.Basic
import VibePoker.Client.Core

/-!
# Runs of the client

A run is what the core is given, intents of the host and messages of the server in any
order, with the effects of each.

## Main definitions

* `ClientCore.handle` — one input
* `ClientCore.log` — the inputs of a run with their effects
-/

namespace VibePoker.Client

open VibePoker.Net

/-- An intent of the host or a message of the server. -/
inductive Input
  | intent (intent : Intent)
  | message (msg : ServerMessage)

/-- An input that was handled, with its effects. -/
structure Entry where
  input : Input
  effects : List Effect

namespace ClientCore

def handle (core : ClientCore) : Input → ClientCore × List Effect
  | .intent intent => core.handleIntent intent
  | .message msg => handleInbound msg core

/-- The core after inputs. -/
def after (core : ClientCore) (inputs : List Input) : ClientCore :=
  inputs.foldl (fun core input => (core.handle input).1) core

/-- What happened while inputs were handled. -/
def log (core : ClientCore) : List Input → List Entry
  | [] => []
  | input :: inputs => ⟨input, (core.handle input).2⟩ :: log (core.handle input).1 inputs

@[simp] theorem after_nil (core : ClientCore) : core.after [] = core := rfl

@[simp] theorem after_cons (core : ClientCore) (input : Input) (inputs : List Input) :
    core.after (input :: inputs) = (core.handle input).1.after inputs := rfl

@[simp] theorem after_append (core : ClientCore) (inputs later : List Input) :
    core.after (inputs ++ later) = (core.after inputs).after later := List.foldl_append

@[simp] theorem log_nil (core : ClientCore) : core.log [] = [] := rfl

theorem log_append (core : ClientCore) (inputs later : List Input) :
    core.log (inputs ++ later) = core.log inputs ++ (core.after inputs).log later := by
  induction inputs generalizing core with
  | nil => rfl
  | cons input inputs ih =>
    rw [List.cons_append, log, ih]
    rfl

/-- A replay is handled like its messages. -/
theorem handleReplay_fst (core : ClientCore) (msgs : List ServerMessage) :
    (handleReplay msgs core).1 = core.receive msgs := by
  induction msgs generalizing core with
  | nil => simp only [handleReplay, receive, List.foldl_nil]
  | cons msg msgs ih =>
    simp only [handleReplay, ih]
    rfl

/-- The log of a run, cut at one of its entries. -/
theorem log_eq_append {core : ClientCore} {inputs : List Input} {before after : List Entry}
    {entry : Entry} (h : core.log inputs = before ++ entry :: after) :
    ∃ earlier later, inputs = earlier ++ entry.input :: later ∧ core.log earlier = before ∧
      entry = ⟨entry.input, ((core.after earlier).handle entry.input).2⟩ ∧
      (core.after (earlier ++ [entry.input])).log later = after := by
  induction before generalizing core inputs with
  | nil =>
    cases inputs with
    | nil => cases h
    | cons input inputs =>
      obtain ⟨rfl, rfl⟩ := List.cons.inj h
      exact ⟨[], inputs, rfl, rfl, rfl, rfl⟩
  | cons first before ih =>
    cases inputs with
    | nil => cases h
    | cons input inputs =>
      obtain ⟨rfl, hrest⟩ := List.cons.inj h
      obtain ⟨earlier, later, rfl, rfl, hentry, rfl⟩ := ih hrest
      exact ⟨input :: earlier, later, rfl, rfl, hentry, rfl⟩

end ClientCore

end VibePoker.Client
