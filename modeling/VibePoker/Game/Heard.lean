import VibePoker.Game.Passage

/-!
# What the agents hear of the actions

Each action is reported to the sink when it is applied, and to every agent before the next
seat is asked. So an agent that is asked to act has heard of the actions of the hand so far,
as they were applied.

## Main definitions

* `reportedActions`, `heardActions` — the actions that a sink, an agent is told of
* `KeepsUp` — the agents have heard of all reported actions whenever one of them is asked

## Main results

* `runHand_keepsUp` — they have, in every hand
-/

namespace VibePoker.Game

open VibePoker.Core VibePoker.Math

variable {n : ℕ} {e : Engine}

/-! ## Actions in outputs -/

/-- The action that an event reports: the seat, the action as applied, and the chips in the
pot and in front of the seats after it. -/
def EngineEvent.action? : EngineEvent → Option (ℕ × Action × ℕ)
  | .actionTaken seat action potTotal => some (seat, action, potTotal)
  | _ => none

/-- The event that an output shows to every agent. -/
def Output.notified? : Output n → Option EngineEvent
  | .notify shown => some shown
  | _ => none

/-- The actions that a run reports to its sink. -/
def reportedActions (outputs : List (Output n)) : List (ℕ × Action × ℕ) :=
  (eventsOf outputs).filterMap EngineEvent.action?

/-- The actions that a run shows to every agent. -/
def heardActions (outputs : List (Output n)) : List (ℕ × Action × ℕ) :=
  (outputs.filterMap Output.notified?).filterMap EngineEvent.action?

@[simp] theorem reportedActions_append (outputs later : List (Output n)) :
    reportedActions (outputs ++ later) = reportedActions outputs ++ reportedActions later := by
  rw [reportedActions, eventsOf_append, List.filterMap_append]
  rfl

@[simp] theorem heardActions_append (outputs later : List (Output n)) :
    heardActions (outputs ++ later) = heardActions outputs ++ heardActions later := by
  rw [heardActions, List.filterMap_append, List.filterMap_append]
  rfl

/-- Events that report no action. -/
theorem reportedActions_events {events : List EngineEvent}
    (h : ∀ event ∈ events, event.action? = none) :
    reportedActions (events.map Output.event : List (Output n)) = [] := by
  rw [reportedActions, eventsOf_events]
  exact List.filterMap_eq_nil_iff.mpr h

theorem heardActions_events (events : List EngineEvent) :
    heardActions (events.map Output.event : List (Output n)) = [] := by
  have hnone : ((Output.notified? : Output n → Option EngineEvent) ∘ Output.event) = fun _ => none :=
    rfl
  rw [heardActions, List.filterMap_map, hnone, List.filterMap_none]
  rfl

theorem reportedActions_core (outputs : List (Output n)) :
    reportedActions (outputs.filter Output.isCore) = reportedActions outputs := by
  have hevents : eventsOf (outputs.filter Output.isCore) = eventsOf outputs := by
    rw [eventsOf, eventsOf, List.filterMap_filter]
    refine List.filterMap_congr fun output _ => ?_
    cases output <;> rfl
  rw [reportedActions, reportedActions, hevents]

/-- The setup of a hand applies no action. -/
theorem setupEvents_action? (deck : Deck) (s : GameState n) :
    ∀ event ∈ setupEvents e deck s, event.action? = none := by
  intro event hevent
  obtain ⟨seat, total, rfl⟩ | ⟨seat, cards, rfl⟩ := setupEvents_reports deck s event hevent <;> rfl

theorem setupHand_action? {s s' : GameState n} {deck deck' : Deck}
    {seatKinds : Option (List SeatKind)} {canonicalBb : ℕ} {events : List EngineEvent}
    (h : setupHand e deck s seatKinds = some (s', deck', canonicalBb, events)) :
    ∀ event ∈ events, event.action? = none := by
  rw [← setupEvents_eq h]
  exact setupEvents_action? deck s

theorem performAction_action? (s : GameState n) (seat : Fin n) (action : Action) :
    ∀ event ∈ (Engine.performAction s seat action).2.2, event.action? = none := by
  intro event hevent
  obtain ⟨_, _, rfl⟩ := performAction_allIn s seat action event hevent
  rfl

/-- An answer applies one action, which every agent hears of. -/
theorem reportedActions_answer (d : Decision n) (raw : Action) :
    reportedActions (d.answer raw).1 =
        [(d.seat.val, Engine.normalizeAction d.state d.seat raw, (d.acted raw).potTotal)] ∧
      heardActions (d.answer raw).1 = reportedActions (d.answer raw).1 := by
  have hreported : reportedActions (d.answer raw).1 =
      [(d.seat.val, Engine.normalizeAction d.state d.seat raw, (d.acted raw).potTotal)] := by
    rw [reportedActions, eventsOf_answer, List.filterMap_append,
      List.filterMap_eq_nil_iff.mpr (performAction_action? d.state d.seat _)]
    rfl
  refine ⟨hreported, ?_⟩
  rw [hreported, answer_fst, heardActions_append, heardActions_events]
  rfl

/-! ## Keeping up -/

/-- The agents have heard of all reported actions whenever one of them is asked, and at the
end. -/
structure KeepsUp (outputs : List (Output n)) : Prop where
  whole : heardActions outputs = reportedActions outputs
  asked : ∀ before d obs after, outputs = before ++ .prompt d obs :: after →
    heardActions before = reportedActions before

namespace KeepsUp

variable {outputs later : List (Output n)}

theorem append (h : KeepsUp outputs) (hlater : KeepsUp later) : KeepsUp (outputs ++ later) where
  whole := by rw [heardActions_append, reportedActions_append, h.whole, hlater.whole]
  asked before d obs after hsplit := by
    obtain ⟨mid, rfl, hmid⟩ | ⟨mid, hmid, hafter⟩ := List.append_eq_append_iff.mp hsplit
    · rw [heardActions_append, reportedActions_append, h.whole, hlater.asked mid d obs after hmid]
    · cases mid with
      | nil =>
        obtain rfl : outputs = before := by simpa using hmid
        exact h.whole
      | cons first mid =>
        obtain ⟨rfl, -⟩ := List.cons.inj hafter
        exact h.asked before d obs mid hmid

/-- Outputs that ask nobody. -/
theorem of_promptsOf (hasks : promptsOf outputs = [])
    (hwhole : heardActions outputs = reportedActions outputs) : KeepsUp outputs where
  whole := hwhole
  asked before d obs after hsplit := by
    rw [hsplit, promptsOf_append, promptsOf_cons_prompt] at hasks
    simp at hasks

theorem nil : KeepsUp ([] : List (Output n)) := of_promptsOf rfl rfl

theorem prompt (d : Decision n) (obs : Observation) : KeepsUp [.prompt d obs] where
  whole := rfl
  asked before d' obs' after hsplit := by
    obtain ⟨rfl, -, -⟩ | ⟨-, hnil⟩ := List.singleton_eq_append_iff.mp hsplit
    · rfl
    · cases hnil

theorem answer (d : Decision n) (raw : Action) : KeepsUp (d.answer raw).1 :=
  of_promptsOf (promptsOf_answer d raw) (reportedActions_answer d raw).2

/-- Events that report no action. -/
theorem events {events : List EngineEvent} (h : ∀ event ∈ events, event.action? = none) :
    KeepsUp (events.map Output.event : List (Output n)) :=
  of_promptsOf (promptsOf_events events)
    ((heardActions_events events).trans (reportedActions_events h).symm)

end KeepsUp

/-! ## A hand keeps up -/

theorem runBettingRound_keepsUp (answers : List Action) (s : GameState n)
    (hasResponded : Fin n → Bool) (current : Fin n) :
    KeepsUp (runBettingRound e answers s hasResponded current).1 := by
  refine runBettingRound_cases (fun _ _ _ _ round => KeepsUp round.1) ?allDone ?blind
    ?waiting ?answered answers s hasResponded current
  case allDone => exact fun _ _ _ _ _ => .nil
  case blind => exact fun _ _ _ _ _ _ _ => .nil
  case waiting => exact fun _ _ _ _ obs _ _ => .prompt _ obs
  case answered =>
    intro raw answers s hasResponded current seat obs hseek hobs ih
    refine KeepsUp.append ((KeepsUp.prompt _ obs).append (.answer _ raw)) ?_
    rcases hgo : (Decision.answer ⟨s.setActionOn (some seat), hasResponded, seat⟩ raw).2 with
      winner | ⟨t, hasResponded', current'⟩ | _
    · exact .nil
    · exact ih t hasResponded' current' hgo
    · exact .nil

theorem afterRound_keepsUp {round : List (Output n) × RoundOutcome n}
    {proceed : GameState n → List Action → List (Output n) × HandOutcome n}
    (hround : KeepsUp round.1) (hproceed : ∀ s answers, KeepsUp (proceed s answers).1) :
    KeepsUp (afterRound round proceed).1 := by
  obtain ⟨outputs, outcome⟩ := round
  cases outcome with
  | ended s answers => exact hround.append (hproceed _ _)
  | _ => exact hround

theorem dealRemainingStreets_action? (streets : List (Street × ℕ)) (s : GameState n) (deck : Deck) :
    ∀ event ∈ (Engine.dealRemainingStreets streets s deck).1, event.action? = none := by
  induction streets generalizing s deck with
  | nil => simp [Engine.dealRemainingStreets]
  | cons head streets ih =>
    obtain ⟨street, count⟩ := head
    rw [Engine.dealRemainingStreets]
    split
    · simp
    · split
      · rcases hdeal : Engine.dealBoardCards s deck (min count (5 - s.board.length)) street with
          _ | ⟨s', deck', event⟩
        · simp
        · obtain ⟨cards, -, -, rfl⟩ := dealBoardCards_board hdeal
          exact List.forall_mem_cons.mpr ⟨rfl, ih s' deck'⟩
      · exact ih s deck

theorem runShowdown_keepsUp (deck : Deck) (s : GameState n) (answers : List Action) :
    KeepsUp (runShowdown e deck s answers).1 := by
  refine .events ?_
  rw [Engine.dealRemainingBoard]
  split
  · simp
  · exact dealRemainingStreets_action? _ s deck

theorem runPostflop_keepsUp (streets : List (Street × ℕ)) (deck : Deck) (s : GameState n)
    (answers : List Action) : KeepsUp (runPostflop e streets deck s answers).1 := by
  induction streets generalizing deck s answers with
  | nil => exact runShowdown_keepsUp deck s answers
  | cons next streets ih =>
    obtain ⟨street, count⟩ := next
    rw [runPostflop]
    split
    · exact runShowdown_keepsUp deck s answers
    · rcases hdeal : Engine.dealBoardCards (e.beginStreet s street) deck count street with
        _ | ⟨s', deck', event⟩
      · exact .nil
      · obtain ⟨cards, -, -, rfl⟩ := dealBoardCards_board hdeal
        have hdealt : KeepsUp ([.event (.boardDealt street cards),
            .notify (.boardDealt street cards)] : List (Output n)) := .of_promptsOf rfl rfl
        refine hdealt.append ?_
        cases Engine.firstToAct s' with
        | some first =>
          exact afterRound_keepsUp (runBettingRound_keepsUp _ _ _ _) fun s answers =>
            ih deck' s answers
        | none => exact ih deck' _ answers

/-- Whenever an agent is asked, all agents have heard of the actions of the hand so far. -/
theorem runHand_keepsUp (handId deckSeed : ℕ) (order : Fin 52 → Card) (startingStacks : List ℕ)
    (dealer : ℕ) (seatKinds : Option (List SeatKind)) (answers : List Action) :
    KeepsUp (runHand e handId deckSeed order startingStacks dealer seatKinds answers).1 := by
  have hstarted : KeepsUp ([.event (.handStarted handId dealer deckSeed)] :
      List (Output startingStacks.length)) := .of_promptsOf rfl rfl
  have hreport : ∀ hand : List (Output startingStacks.length) × HandOutcome startingStacks.length,
      KeepsUp hand.1 → KeepsUp (reportEnd hand).1 := by
    rintro ⟨outputs, _ | _ | _ | _⟩ h
    · exact h.append (.of_promptsOf rfl rfl)
    all_goals exact h
  rw [runHand]
  rcases hsetup : setupHand e (.new order) (e.initState handId startingStacks dealer) seatKinds with
    _ | ⟨s, deck, canonicalBb, events⟩
  · exact hstarted.append (KeepsUp.events (setupEvents_action? _ _))
  · refine hreport _ (hstarted.append ((KeepsUp.events (setupHand_action? hsetup)).append ?_))
    cases nextActiveAfter canonicalBb s.players with
    | none => exact .nil
    | some first =>
      exact afterRound_keepsUp (runBettingRound_keepsUp _ _ _ _) fun s answers =>
        runPostflop_keepsUp _ deck s answers

/-! ## The actions of a hand -/

section Hand

variable {handId deckSeed : ℕ} {order : Fin 52 → Card} {startingStacks : List ℕ} {dealer : ℕ}
  {seatKinds : Option (List SeatKind)} {t : GameTree startingStacks.length}

/-- The report of the end of a hand is no action, and there is none while the hand waits. -/
theorem reportEnd_fst (hand : List (Output n) × HandOutcome n) :
    ∃ later : List EngineEvent, (∀ event ∈ later, event.action? = none) ∧
      (reportEnd hand).1 = hand.1 ++ later.map .event ∧ (hand.2 = .waiting → later = []) := by
  obtain ⟨outputs, outcome⟩ := hand
  cases outcome with
  | finished result players chipDeltas rest =>
    refine ⟨[.handEnded result.handId result], ?_, rfl, fun hwaiting => nomatch hwaiting⟩
    simp [EngineEvent.action?]
  | _ => exact ⟨[], by simp, by simp [reportEnd], fun _ => rfl⟩

/-- A hand without its notifications, from its first tree on. -/
theorem core_runHand_of_new
    (h : (GameTree.new e handId deckSeed order startingStacks dealer seatKinds).2 = some t)
    (answers : List Action) :
    ∃ setup later : List EngineEvent, (∀ event ∈ setup, event.action? = none) ∧
      (∀ event ∈ later, event.action? = none) ∧
      (runHand e handId deckSeed order startingStacks dealer seatKinds answers).1.filter
          Output.isCore =
        setup.map .event ++ (t.play e answers).1 ++ later.map .event ∧
      ((t.play e answers).2 = .waiting → later = []) := by
  have hsetup : ∀ event ∈ (GameTree.new e handId deckSeed order startingStacks dealer seatKinds).1,
      event.action? = none := by
    rw [GameTree.new] at h ⊢
    rcases hopened : setupHand e (.new order) (e.initState handId startingStacks dealer)
        seatKinds with _ | ⟨s, deck, canonicalBb, events⟩
    · rw [hopened] at h
      cases h
    · exact List.forall_mem_cons.mpr ⟨rfl, setupHand_action? hopened⟩
  have hcore := congrArg Prod.fst
    (core_runHand (e := e) handId deckSeed order startingStacks dealer seatKinds answers)
  rw [GameTree.playHand, GameTree.playFrom, h] at hcore
  obtain ⟨later, hlater, hend, hwaiting⟩ := reportEnd_fst
    ((GameTree.new e handId deckSeed order startingStacks dealer seatKinds).1.map .event ++
      (t.play e answers).1, (t.play e answers).2)
  exact ⟨_, later, hsetup, hlater, hcore.trans hend, hwaiting⟩

/-- The actions of a hand are those of its run from the first tree. -/
theorem reportedActions_runHand
    (h : (GameTree.new e handId deckSeed order startingStacks dealer seatKinds).2 = some t)
    (answers : List Action) :
    reportedActions (runHand e handId deckSeed order startingStacks dealer seatKinds answers).1 =
      reportedActions (t.play e answers).1 := by
  obtain ⟨setup, later, hsetup, hlater, hcore, -⟩ := core_runHand_of_new h answers
  rw [← reportedActions_core, hcore, reportedActions_append, reportedActions_append,
    reportedActions_events hsetup, reportedActions_events hlater, List.nil_append, List.append_nil]

end Hand

/-! ## The actions of the stepper -/

namespace GameTree

theorem advanceStreets_action? (fuel : ℕ) (s : GameState n) (deck : Deck) :
    ∀ event ∈ (advanceStreets e fuel s deck).1, event.action? = none := by
  induction fuel generalizing s deck with
  | zero => exact List.forall_mem_nil _
  | succ fuel ih =>
    rw [advanceStreets]
    split
    · rw [Engine.dealRemainingBoard]
      split
      · exact List.forall_mem_nil _
      · exact dealRemainingStreets_action? _ s deck
    · split
      · exact List.forall_mem_nil _
      · rename_i street count _ s' deck' event hdeal
        obtain ⟨cards, -, -, rfl⟩ := dealBoardCards_board hdeal
        split
        · exact List.forall_mem_singleton.mpr rfl
        · exact List.forall_mem_cons.mpr ⟨rfl, ih _ deck'⟩

theorem advance_action? (s : GameState n) (deck : Deck) (current : Fin n)
    (hasResponded : Fin n → Bool) :
    ∀ event ∈ (advance e s deck current hasResponded).1, event.action? = none := by
  rw [advance]
  split
  · exact List.forall_mem_nil _
  · split
    · exact List.forall_mem_nil _
    · exact advanceStreets_action? 4 _ deck

/-- An answer on the stepper is reported once, as it was applied. -/
theorem reportedActions_applyAction {t : GameTree n} {d : Decision n} (h : t.decision? = some d)
    (raw : Action) :
    reportedActions ((t.applyAction e raw).1.map .event : List (Output n)) =
      [(d.seat.val, Engine.normalizeAction d.state d.seat raw, (d.acted raw).potTotal)] := by
  obtain ⟨hphase, hstate⟩ := decision?_eq_some_iff.mp h
  rw [reportedActions, eventsOf_events, applyAction]
  simp only [hphase, hstate]
  rw [List.filterMap_append, List.filterMap_eq_nil_iff.mpr (advance_action? _ _ _ _),
    Engine.applyAction, List.filterMap_append,
    List.filterMap_eq_nil_iff.mpr (performAction_action? d.state d.seat _)]
  rfl

end GameTree

end VibePoker.Game
