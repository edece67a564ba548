import VibePoker.Core.Shuffle
import VibePoker.Game.Heard

/-!
# A logged hand can be played again

A log starts with the seed of the deck and then reports the actions as they were applied, not
as they were answered. The engine accepts what it applied: given back as answers, the reported
actions are not rewritten again. So a log determines its hand, also one that breaks off.

## Main definitions

* `loggedActions` — the actions that a log reports
* `replayLog` — the hand that a log tells of
* `HandOutcome.usedUp` — how a hand comes out with no answers left over

## Main results

* `runHand_loggedActions` — the reported actions lead to the same outputs
* `hand_log_replays` — every log, of any length, leads back to its hand
-/

namespace VibePoker.Game

open VibePoker.Core

variable {n : ℕ} {e : Engine}

/-! ## Logs -/

/-- The action of an event, without its seat. -/
def EngineEvent.applied? (event : EngineEvent) : Option Action := event.action?.map fun a => a.2.1

/-- The actions that a log reports, in order. -/
def loggedActions (log : List EngineEvent) : List Action := log.filterMap EngineEvent.applied?

/-- Play the hand that a log tells of: with the seed and the dealer that its first event names,
and its actions for answers. -/
def replayLog {ρ : Type*} (e : Engine) (rng : RangeRng ρ) (startingStacks : List ℕ)
    (seatKinds : Option (List SeatKind)) :
    List EngineEvent →
      Option (List (Output startingStacks.length) × HandOutcome startingStacks.length)
  | .handStarted handId dealer deckSeed :: log =>
    some (runHand e handId deckSeed (rng.order deckSeed) startingStacks dealer seatKinds
      (loggedActions log))
  | _ => none

/-- How a betting round comes out with other answers left over. -/
def RoundOutcome.withRest (rest : List Action) : RoundOutcome n → RoundOutcome n
  | .winner seat s _ => .winner seat s rest
  | .ended s _ => .ended s rest
  | outcome => outcome

/-- How a hand comes out with no answers left over. -/
def HandOutcome.usedUp : HandOutcome n → HandOutcome n
  | .finished result players chipDeltas _ => .finished result players chipDeltas []
  | outcome => outcome

/-- The actions that a run reports to its sink, without their seats. -/
def appliedActions (outputs : List (Output n)) : List Action := loggedActions (eventsOf outputs)

@[simp] theorem appliedActions_append (outputs later : List (Output n)) :
    appliedActions (outputs ++ later) = appliedActions outputs ++ appliedActions later := by
  rw [appliedActions, eventsOf_append, loggedActions, List.filterMap_append]
  rfl

@[simp] theorem appliedActions_cons_prompt (d : Decision n) (obs : Observation)
    (outputs : List (Output n)) :
    appliedActions (.prompt d obs :: outputs) = appliedActions outputs := rfl

theorem appliedActions_eq (outputs : List (Output n)) :
    appliedActions outputs = (reportedActions outputs).map fun a => a.2.1 :=
  List.map_filterMap.symm

theorem appliedActions_events {events : List EngineEvent}
    (h : ∀ event ∈ events, event.action? = none) :
    appliedActions (events.map Output.event : List (Output n)) = [] := by
  rw [appliedActions_eq, reportedActions_events h, List.map_nil]

/-- An answer is reported as it is applied. -/
theorem appliedActions_answer (d : Decision n) (raw : Action) :
    appliedActions (d.answer raw).1 = [Engine.normalizeAction d.state d.seat raw] := by
  rw [appliedActions_eq, (reportedActions_answer d raw).1, List.map_singleton]

/-! ## What was applied is accepted -/

/-- An action that was normalised is not rewritten again. -/
theorem normalizeAction_idem (s : GameState n) (seat : Fin n) (raw : Action) :
    Engine.normalizeAction s seat (Engine.normalizeAction s seat raw) =
      Engine.normalizeAction s seat raw := by
  cases raw with
  | raise amount =>
    by_cases hall : amount - (s.players seat).betThisStreet ≥ (s.players seat).stack
    · simp [Engine.normalizeAction, hall]
    · by_cases hsmall : amount < s.currentBet + s.minRaiseIncrement
      · by_cases howed : s.currentBet - (s.players seat).betThisStreet = 0
        · simp [Engine.normalizeAction, hall, hsmall, howed]
        · simp [Engine.normalizeAction, hall, hsmall, howed]
      · simp [Engine.normalizeAction, hall, hsmall]
  | _ => rfl

theorem answer_normalizeAction (d : Decision n) (raw : Action) :
    d.answer (Engine.normalizeAction d.state d.seat raw) = d.answer raw := by
  rw [Decision.answer, normalizeAction_idem]
  rfl

/-! ## Rounds and streets -/

/-- A betting round with the actions that it reported for answers. What follows them is left
over, unless the round was still waiting. -/
theorem runBettingRound_appliedActions (answers : List Action) (s : GameState n)
    (hasResponded : Fin n → Bool) (current : Fin n) :
    ∀ later, ((runBettingRound e answers s hasResponded current).2 = .waiting → later = []) →
      runBettingRound e
          (appliedActions (runBettingRound e answers s hasResponded current).1 ++ later)
          s hasResponded current =
        ((runBettingRound e answers s hasResponded current).1,
          (runBettingRound e answers s hasResponded current).2.withRest later) := by
  refine runBettingRound_cases (fun _ s hasResponded current round =>
    ∀ later, (round.2 = .waiting → later = []) →
      runBettingRound e (appliedActions round.1 ++ later) s hasResponded current =
        (round.1, round.2.withRest later)) ?allDone ?blind ?waiting ?answered
    answers s hasResponded current
  case allDone => exact fun _ _ _ _ hseek _ _ => runBettingRound_of_allDone hseek
  case blind => exact fun _ _ _ _ _ hseek hobs _ _ => runBettingRound_blind hseek hobs _
  case waiting =>
    intro s hasResponded current seat obs hseek hobs later hlater
    rw [hlater rfl]
    exact runBettingRound_nil hseek hobs
  case answered =>
    intro raw answers s hasResponded current seat obs hseek hobs ih later hlater
    set d : Decision n := ⟨s.setActionOn (some seat), hasResponded, seat⟩ with hd
    -- the first reported action is the applied one, which is applied again as it is
    rw [List.cons_append, appliedActions_cons_prompt, appliedActions_append,
      appliedActions_answer, List.append_assoc, List.singleton_append,
      runBettingRound_cons hseek hobs, ← hd, answer_normalizeAction]
    cases hgo : (d.answer raw).2 with
    | winner seat s => rfl
    | next t hasResponded' current' =>
      rw [hgo] at hlater
      have hrest := ih t hasResponded' current' hgo later hlater
      simp only [Answer.goOn, hrest]
      rfl
    | panicked => rfl

/-- A hand that is played again with the actions that it reported. -/
def Replays (play : List Action → List (Output n) × HandOutcome n) (answers : List Action) :
    Prop :=
  play (appliedActions (play answers).1) = ((play answers).1, (play answers).2.usedUp)

theorem afterRound_replays {s : GameState n} {hasResponded : Fin n → Bool} {current : Fin n}
    {proceed : GameState n → List Action → List (Output n) × HandOutcome n}
    (h : ∀ s answers, Replays (proceed s) answers) (answers : List Action) :
    Replays (fun answers => afterRound (runBettingRound e answers s hasResponded current) proceed)
      answers := by
  have hround := @runBettingRound_appliedActions n e answers s hasResponded current
  rw [Replays]
  generalize hrun : runBettingRound e answers s hasResponded current = round at hround ⊢
  obtain ⟨outputs, outcome⟩ := round
  cases outcome with
  | ended s' answers' =>
    have hlater := h (collectStreetBets s') answers'
    rw [Replays] at hlater
    simp only [afterRound, appliedActions_append]
    -- what the later streets reported is left over by the round
    rw [hround _ (fun hwaiting => by cases hwaiting)]
    simp only [RoundOutcome.withRest, hlater]
  | _ =>
    have hrest := hround [] fun _ => rfl
    rw [List.append_nil] at hrest
    simp only [afterRound, hrest]
    rfl

theorem dealRemainingBoard_action? (s : GameState n) (deck : Deck) :
    ∀ event ∈ (Engine.dealRemainingBoard s deck).1, event.action? = none := by
  rw [Engine.dealRemainingBoard]
  split
  · exact List.forall_mem_nil _
  · exact dealRemainingStreets_action? _ s deck

theorem runShowdown_replays (deck : Deck) (s : GameState n) (answers : List Action) :
    Replays (runShowdown e deck s) answers := by
  rw [Replays]
  simp only [runShowdown, appliedActions_events (dealRemainingBoard_action? s deck)]
  congr 1
  rcases (Engine.dealRemainingBoard s deck).2 with _ | ⟨s', deck'⟩
  · rfl
  · dsimp only
    cases e.resolveShowdown s' <;> rfl

theorem runPostflop_replays (streets : List (Street × ℕ)) (deck : Deck) (s : GameState n)
    (answers : List Action) : Replays (runPostflop e streets deck s) answers := by
  induction streets generalizing deck s answers with
  | nil => exact runShowdown_replays deck s answers
  | cons next streets ih =>
    obtain ⟨street, count⟩ := next
    by_cases hone : s.playersStillIn ≤ 1
    · have hshow : runPostflop e ((street, count) :: streets) deck s = runShowdown e deck s := by
        funext answers
        rw [runPostflop, if_pos hone]
      rw [hshow]
      exact runShowdown_replays deck s answers
    · rcases hdeal : Engine.dealBoardCards (e.beginStreet s street) deck count street with
        _ | ⟨s', deck', event⟩
      · simp only [Replays, runPostflop, if_neg hone, hdeal]
        rfl
      · obtain ⟨cards, -, -, rfl⟩ := dealBoardCards_board hdeal
        have hdealt : ∀ outputs : List (Output n),
            appliedActions (.event (.boardDealt street cards) ::
                .notify (.boardDealt street cards) :: outputs) =
              appliedActions outputs := fun _ => rfl
        cases hfirst : Engine.firstToAct s' with
        | some first =>
          have hround := @afterRound_replays n e s' (fun _ => false) first _
            (fun s answers => ih deck' s answers) answers
          rw [Replays] at hround
          simp only [Replays, runPostflop, if_neg hone, hdeal, hfirst, hdealt, hround]
        | none =>
          have hlater := ih deck' (collectStreetBets s') answers
          rw [Replays] at hlater
          simp only [Replays, runPostflop, if_neg hone, hdeal, hfirst, hdealt, hlater]

/-! ## Hands -/

theorem appliedActions_reportEnd (hand : List (Output n) × HandOutcome n) :
    appliedActions (reportEnd hand).1 = appliedActions hand.1 := by
  obtain ⟨outputs, outcome⟩ := hand
  cases outcome with
  | finished =>
    rw [reportEnd, appliedActions_append]
    exact List.append_nil _
  | _ => rfl

theorem reportEnd_usedUp (hand : List (Output n) × HandOutcome n) :
    reportEnd (hand.1, hand.2.usedUp) = ((reportEnd hand).1, (reportEnd hand).2.usedUp) := by
  obtain ⟨outputs, outcome⟩ := hand
  cases outcome <;> rfl

/-- A hand that is played with the actions it reported does the same, whatever it was played
with. -/
theorem runHand_loggedActions (handId deckSeed : ℕ) (order : Fin 52 → Card)
    (startingStacks : List ℕ) (dealer : ℕ) (seatKinds : Option (List SeatKind))
    (answers : List Action) :
    Replays (runHand e handId deckSeed order startingStacks dealer seatKinds) answers := by
  rw [Replays]
  rcases hsetup : setupHand e (.new order) (e.initState handId startingStacks dealer) seatKinds with
    _ | ⟨s, deck, canonicalBb, events⟩
  · simp only [runHand, hsetup]
    rfl
  · -- the events of the setup report no action
    have hopening : appliedActions (.event (.handStarted handId dealer deckSeed) ::
        events.map .event : List (Output startingStacks.length)) = [] :=
      @appliedActions_events _ (.handStarted handId dealer deckSeed :: events)
        (List.forall_mem_cons.mpr ⟨rfl, setupHand_action? hsetup⟩)
    cases hfirst : nextActiveAfter canonicalBb s.players with
    | none =>
      simp only [runHand, hsetup, hfirst, appliedActions_reportEnd, List.append_nil, hopening]
      rw [← reportEnd_usedUp]
      simp only [awardUncontestedAndFinish]
      cases s.firstStillIn <;> rfl
    | some first =>
      have hstreets : Replays (runStreets e deck s first) answers :=
        afterRound_replays (runPostflop_replays Engine.postflop deck) answers
      rw [Replays] at hstreets
      simp only [runHand, hsetup, hfirst, appliedActions_reportEnd, appliedActions_append,
        hopening, List.nil_append, hstreets]
      rw [← reportEnd_usedUp]

/-- The first thing that a hand does is to report its start. -/
theorem runHand_head (handId deckSeed : ℕ) (order : Fin 52 → Card) (startingStacks : List ℕ)
    (dealer : ℕ) (seatKinds : Option (List SeatKind)) (answers : List Action) :
    ∃ later, (runHand e handId deckSeed order startingStacks dealer seatKinds answers).1 =
      .event (.handStarted handId dealer deckSeed) :: later := by
  have hreport : ∀ (first : Output startingStacks.length) later outcome,
      ∃ later', (reportEnd (first :: later, outcome)).1 = first :: later' := by
    intro first later outcome
    cases outcome <;> exact ⟨_, rfl⟩
  rw [runHand]
  split
  · exact ⟨_, rfl⟩
  · exact hreport _ _ _

/-- What a hand reported until it ended or broke off leads back to the hand: the same prompts,
events and awards, and no answer is left over. -/
theorem hand_log_replays {ρ : Type*} (rng : RangeRng ρ) (handId deckSeed : ℕ)
    (startingStacks : List ℕ) (dealer : ℕ) (seatKinds : Option (List SeatKind))
    (answers : List Action) :
    replayLog e rng startingStacks seatKinds
        (eventsOf (runHand e handId deckSeed (rng.order deckSeed) startingStacks dealer seatKinds
          answers).1) =
      some ((runHand e handId deckSeed (rng.order deckSeed) startingStacks dealer seatKinds
          answers).1,
        (runHand e handId deckSeed (rng.order deckSeed) startingStacks dealer seatKinds
          answers).2.usedUp) := by
  have hreplays := @runHand_loggedActions e handId deckSeed (rng.order deckSeed) startingStacks
    dealer seatKinds answers
  obtain ⟨later, hlater⟩ := @runHand_head e handId deckSeed (rng.order deckSeed) startingStacks
    dealer seatKinds answers
  rw [Replays, hlater] at hreplays
  rw [hlater]
  exact congrArg some hreplays

end VibePoker.Game
