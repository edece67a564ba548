import VibePoker.Game.Betting
import VibePoker.Game.Simulation

/-!
# Prompts of a hand

A prompt of `runHand` is a decision of the stepper, so whatever holds along the
stepper's runs holds at every prompt.

## Main results

* `asked_of_prompt` — the run that leads to a prompt
* `playing_of_prompt` — the accounts at a prompt
-/

namespace VibePoker.Game

open VibePoker.Core

variable {n : ℕ} {e : Engine}

instance (d : Decision n) (action : Action) : Decidable (d.legal e action) :=
  inferInstanceAs (Decidable (_ = true))

theorem Decision.observation_legalActions {d : Decision n} {obs : Observation}
    (h : d.observation e = some obs) :
    obs.legalActions = e.computeLegalActions d.state d.seat (!d.hasResponded d.seat) := by
  obtain ⟨hole, -, rfl⟩ := Option.map_eq_some_iff.mp h
  rfl

theorem Decision.observation_position {d : Decision n} {obs : Observation}
    (h : d.observation e = some obs) : obs.position = d.seat := by
  obtain ⟨hole, -, rfl⟩ := Option.map_eq_some_iff.mp h
  rfl

theorem Decision.observation_players {d : Decision n} {obs : Observation}
    (h : d.observation e = some obs) : obs.players = publicPlayers d.state.players := by
  obtain ⟨hole, -, rfl⟩ := Option.map_eq_some_iff.mp h
  rfl

section Hand

variable {handId deckSeed : ℕ} {order : Fin 52 → Card} {startingStacks : List ℕ} {dealer : ℕ}
  {seatKinds : Option (List SeatKind)} {answers : List Action}
  {d : Decision startingStacks.length} {obs : Observation}

/-- Every prompt of a hand is the decision of a tree that the hand leads to. -/
theorem asked_of_prompt (h : (d, obs) ∈ promptsOf
    (runHand e handId deckSeed order startingStacks dealer seatKinds answers).1) :
    ∃ t used t', (GameTree.new e handId deckSeed order startingStacks dealer seatKinds).2 = some t ∧
      CS.Trace (GameTree.Step e fun _ _ => True) t used t' ∧ t'.decision? = some d ∧
        d.observation e = some obs := by
  obtain ⟨before, after, hprompts⟩ := List.append_of_mem h
  obtain ⟨t, used, rest, t', hnew, -, htrace, hd, hobs⟩ : ∃ t used rest t',
      (GameTree.new e handId deckSeed order startingStacks dealer seatKinds).2 = some t ∧
        answers = used ++ rest ∧
        CS.Trace (GameTree.Step e fun d' _ => True ∧ d' ∈ before.map Prod.fst) t used t' ∧
        t'.decision? = some d ∧ d.observation e = some obs :=
    prompt_of_runHand hprompts fun _ _ => trivial
  refine ⟨t, used, t', hnew, htrace.mono ?_, hd, hobs⟩
  rintro s a u ⟨d', hd', -, hu⟩
  exact ⟨d', hd', trivial, hu⟩

/-- At every prompt the accounts are in order, and the seat that is asked has
chips. -/
theorem playing_of_prompt (h : (d, obs) ∈ promptsOf
    (runHand e handId deckSeed order startingStacks dealer seatKinds answers).1) :
    ∃ deck, Playing startingStacks.get (2 * fundedSeats startingStacks) deck d := by
  obtain ⟨t, used, t', hnew, htrace, hd, -⟩ := asked_of_prompt h
  exact ⟨t'.deck, playing_of_new hnew htrace hd⟩

theorem legalActions_of_prompt (h : (d, obs) ∈ promptsOf
    (runHand e handId deckSeed order startingStacks dealer seatKinds answers).1) :
    obs.legalActions = e.computeLegalActions d.state d.seat (!d.hasResponded d.seat) := by
  obtain ⟨t, used, t', -, -, -, hobs⟩ := asked_of_prompt h
  exact Decision.observation_legalActions hobs

end Hand

theorem Playing.stack_pos {start : Fin n → ℕ} {dealt : ℕ} {deck : Deck} {d : Decision n}
    (h : Playing start dealt deck d) : 0 < (d.state.players d.seat).stack :=
  (h.ledger.seat d.seat).stack_pos h.active

end VibePoker.Game
