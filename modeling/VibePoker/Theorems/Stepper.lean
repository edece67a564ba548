import VibePoker.Game.Ledger
import VibePoker.Game.Simulation

/-!
# The stepper and the engine play the same hand

## Main results

* `gameTree_simulates_runHand` — same prompts, same events, same end, same result
-/

namespace VibePoker.Game

open VibePoker.Core VibePoker.CS

variable {e : Engine}

/-- A hand on the engine asks the same seats the same questions and reports the
same events as the stepper, adding the report of its end. It finishes on exactly
the answers that bring the stepper to a terminal node, with the result the
stepper gives there. -/
theorem gameTree_simulates_runHand (e : Engine) (handId deckSeed : ℕ) (order : Fin 52 → Card)
    (startingStacks : List ℕ) (dealer : ℕ) (seatKinds : Option (List SeatKind))
    (answers : List Action) :
    core (runHand e handId deckSeed order startingStacks dealer seatKinds answers) =
        reportEnd
          (GameTree.playHand e handId deckSeed order startingStacks dealer seatKinds answers) ∧
      ∀ result players chipDeltas rest,
        (runHand e handId deckSeed order startingStacks dealer seatKinds answers).2 =
            .finished result players chipDeltas rest ↔
          ∃ used t t', answers = used ++ rest ∧
            (GameTree.new e handId deckSeed order startingStacks dealer seatKinds).2 = some t ∧
            Trace (GameTree.Step e fun _ _ => True) t used t' ∧
            t'.phase = .terminal chipDeltas ∧ t'.state.players = players ∧
            t'.intoResult handId = some result := by
  refine ⟨core_runHand handId deckSeed order startingStacks dealer seatKinds answers,
    fun result players chipDeltas rest => ?_⟩
  rw [runHand_snd, GameTree.playHand, GameTree.playFrom]
  cases hnew : (GameTree.new e handId deckSeed order startingStacks dealer seatKinds).2 with
  | none => simp
  | some t =>
    dsimp only
    constructor
    · intro hfinished
      obtain ⟨used, rest', t', rfl, htrace, hends⟩ :=
        GameTree.play_trace (e := e) (fun _ _ => True) t answers fun _ _ => trivial
      rw [hfinished] at hends
      obtain ⟨hphase, rfl, rfl, rfl⟩ := hends.terminal
      refine ⟨used, t, t', rfl, rfl, htrace, hphase, rfl, ?_⟩
      simp only [GameTree.intoResult, hphase, handId_of_new hnew htrace]
    · rintro ⟨used, t₀, t', rfl, ht₀, htrace, hphase, rfl, hresult⟩
      obtain rfl := Option.some.inj ht₀
      rw [play_of_trace htrace (playing_new hnew) rest, GameTree.play_of_terminal hphase, settle]
      simp only [GameTree.intoResult, hphase, Option.some.injEq] at hresult
      rw [← hresult, handId_of_new hnew htrace]

end VibePoker.Game
