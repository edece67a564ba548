import VibePoker.Game.Prompts

/-!
# The states of a hand

The states that the engine goes through in a hand before its award, one for each
of its operations, and the events emitted on the way. The prompts and the events
of a hand come from such states, and so does its award; what holds of all of them
holds of every hand.

## Main definitions

* `Reached` — the states an engine goes through before the award, each with the
  events emitted on the way into it

## Main results

* `runHand_from` — the prompts, events and award of a hand come from such states
-/

namespace VibePoker.Game

open VibePoker.Core

variable {n : ℕ} {e : Engine}

/-- The states of a hand before its award. Each operation of the engine leads from
a state to the next one; `events` are those that the last operation emitted. -/
inductive Reached (e : Engine) (handId deckSeed : ℕ) (startingStacks : List ℕ) (dealer : ℕ) :
    GameState startingStacks.length → List EngineEvent → Prop
  | started : Reached e handId deckSeed startingStacks dealer
      (e.initState handId startingStacks dealer) [.handStarted handId dealer deckSeed]
  | antesPosted {s : GameState startingStacks.length} {events : List EngineEvent}
      (h : Reached e handId deckSeed startingStacks dealer s events) :
      Reached e handId deckSeed startingStacks dealer (antesPosted e s).1 (antesPosted e s).2
  | blindsPosted {s s' : GameState startingStacks.length} {events posted : List EngineEvent}
      (h : Reached e handId deckSeed startingStacks dealer s events)
      (hpost : e.postBlinds s = some (s', posted)) :
      Reached e handId deckSeed startingStacks dealer s' posted
  | holeCardsDealt {s s' : GameState startingStacks.length} {events dealt : List EngineEvent}
      (h : Reached e handId deckSeed startingStacks dealer s events)
      (seats : List (Fin startingStacks.length)) {deck deck' : Deck}
      (hdeal : Engine.dealHoleCards seats s deck = some (s', deck', dealt)) :
      Reached e handId deckSeed startingStacks dealer s' dealt
  | deadHandsFolded {s s' : GameState startingStacks.length} {events : List EngineEvent}
      (h : Reached e handId deckSeed startingStacks dealer s events)
      (seatKinds : Option (List SeatKind)) (hfold : Engine.foldDeadHands seatKinds s = some s') :
      Reached e handId deckSeed startingStacks dealer s' []
  | asked {s : GameState startingStacks.length} {events : List EngineEvent}
      (h : Reached e handId deckSeed startingStacks dealer s events)
      (seat : Option (Fin startingStacks.length)) :
      Reached e handId deckSeed startingStacks dealer (s.setActionOn seat) []
  | acted {s : GameState startingStacks.length} {events : List EngineEvent}
      (h : Reached e handId deckSeed startingStacks dealer s events)
      {seat : Fin startingStacks.length} (hactive : (s.players seat).status = .active)
      (raw : Action) :
      Reached e handId deckSeed startingStacks dealer
        (Engine.applyAction s seat (Engine.normalizeAction s seat raw)).1
        (Engine.applyAction s seat (Engine.normalizeAction s seat raw)).2.2
  | collected {s : GameState startingStacks.length} {events : List EngineEvent}
      (h : Reached e handId deckSeed startingStacks dealer s events) :
      Reached e handId deckSeed startingStacks dealer (collectStreetBets s) []
  | streetBegun {s : GameState startingStacks.length} {events : List EngineEvent}
      (h : Reached e handId deckSeed startingStacks dealer (collectStreetBets s) events)
      (street : Street) :
      Reached e handId deckSeed startingStacks dealer
        (e.beginStreet (collectStreetBets s) street) []
  | boardDealt {s s' : GameState startingStacks.length} {events : List EngineEvent}
      (h : Reached e handId deckSeed startingStacks dealer s events) {deck deck' : Deck}
      {count : ℕ} {street : Street} {event : EngineEvent}
      (hdeal : Engine.dealBoardCards s deck count street = some (s', deck', event)) :
      Reached e handId deckSeed startingStacks dealer s' [event]
  | boardFilled {s : GameState startingStacks.length} {events : List EngineEvent}
      (h : Reached e handId deckSeed startingStacks dealer s events) (cards : List Card) :
      Reached e handId deckSeed startingStacks dealer (s.extendBoard cards) []

/-! ## What is announced -/

/-- What may be reported on the way into state `s` of a hand: everything but its end. -/
def EngineEvent.Announces (handId deckSeed dealer : ℕ) (s : GameState n) : EngineEvent → Prop
  | .handStarted handId' dealer' deckSeed' =>
    handId' = handId ∧ dealer' = dealer ∧ deckSeed' = deckSeed
  | .actionTaken _ _ potTotal => potTotal = s.potTotal
  | .holeCardsDealt _ _ | .boardDealt _ _ | .playerAllIn _ _ => True
  | .handEnded _ _ => False

/-- A forced bet reports a seat that is all-in, if anything. -/
theorem post_allIn (s : GameState n) (seat : Fin n) (amount : ℕ) :
    ∀ event ∈ (Engine.post s seat amount).2, ∃ seat total, event = .playerAllIn seat total := by
  intro event hevent
  rw [Engine.post] at hevent
  dsimp only at hevent
  split at hevent
  · exact ⟨_, _, List.mem_singleton.mp hevent⟩
  · simp at hevent

theorem antesPosted_allIn (s : GameState n) :
    ∀ event ∈ (antesPosted e s).2, ∃ seat total, event = .playerAllIn seat total := by
  intro event hevent
  rw [antesPosted] at hevent
  split at hevent
  · simp only [Engine.postAntes, List.mem_filterMap] at hevent
    obtain ⟨i, -, hi⟩ := hevent
    split at hi
    · exact ⟨_, _, (Option.some.inj hi).symm⟩
    · simp at hi
  · simp at hevent

theorem postBlinds_allIn {s s' : GameState n} {events : List EngineEvent}
    (hpost : e.postBlinds s = some (s', events)) :
    ∀ event ∈ events, ∃ seat total, event = .playerAllIn seat total := by
  intro event hevent
  rw [Engine.postBlinds] at hpost
  split at hpost
  case isTrue =>
    simp only [Option.some.injEq, Prod.mk.injEq] at hpost
    obtain ⟨-, rfl⟩ := hpost
    rcases List.mem_append.mp hevent with hsb | hbb
    · exact post_allIn _ _ _ event hsb
    · exact post_allIn _ _ _ event hbb
  case isFalse => simp at hpost

/-- The forced bets report seats that they take the last chip of. -/
theorem forced_allIn {s s' : GameState n} {blinds : List EngineEvent}
    (hpost : e.postBlinds (antesPosted e s).1 = some (s', blinds)) :
    ∀ event ∈ (antesPosted e s).2 ++ blinds, ∃ seat total, event = .playerAllIn seat total := by
  intro event hevent
  rcases List.mem_append.mp hevent with hante | hblind
  · exact antesPosted_allIn _ event hante
  · exact postBlinds_allIn hpost event hblind

/-- Dealing the hole cards reports them. -/
theorem dealHoleCards_dealt {seats : List (Fin n)} {s s' : GameState n} {deck deck' : Deck}
    {events : List EngineEvent}
    (hdeal : Engine.dealHoleCards seats s deck = some (s', deck', events)) :
    ∀ event ∈ events, ∃ seat cards, event = .holeCardsDealt seat cards := by
  induction seats generalizing s deck events with
  | nil =>
    simp only [Engine.dealHoleCards, Option.some.injEq, Prod.mk.injEq] at hdeal
    simp [← hdeal.2.2]
  | cons i seats ih =>
    rcases dealHoleCards_cons hdeal with ⟨_, _, _, _, later, -, -, -, hrest, rfl⟩ | ⟨-, hrest⟩
    · intro event hevent
      rcases List.mem_cons.mp hevent with rfl | hlater
      · exact ⟨_, _, rfl⟩
      · exact ih hrest event hlater
    · exact ih hrest

/-- The setup reports seats that are all-in and hole cards, nothing else. -/
theorem setupEvents_reports (deck : Deck) (s : GameState n) :
    ∀ event ∈ setupEvents e deck s, (∃ seat total, event = .playerAllIn seat total) ∨
      ∃ seat cards, event = .holeCardsDealt seat cards := by
  intro event hevent
  rcases setupEvents_cases (e := e) deck s with
    hantes | ⟨s₁, blinds, before, after, s₂, deck', dealt, hpost, -, hdeal, hall⟩
  · rw [hantes] at hevent
    exact Or.inl (antesPosted_allIn _ event hevent)
  · rw [hall] at hevent
    rcases List.mem_append.mp hevent with hforced | hdealt
    · exact Or.inl (forced_allIn hpost event hforced)
    · exact Or.inr (dealHoleCards_dealt hdeal event hdealt)

theorem setupHand_reports {s s' : GameState n} {deck deck' : Deck}
    {seatKinds : Option (List SeatKind)} {canonicalBb : ℕ} {events : List EngineEvent}
    (h : setupHand e deck s seatKinds = some (s', deck', canonicalBb, events)) :
    ∀ event ∈ events, (∃ seat total, event = .playerAllIn seat total) ∨
      ∃ seat cards, event = .holeCardsDealt seat cards := by
  rw [← setupEvents_eq h]
  exact setupEvents_reports deck s

/-- Whatever only other events say, the setup does not say. -/
theorem setupEvents_filterMap {β : Type*} {f : EngineEvent → Option β} (deck : Deck)
    (s : GameState n) (hallIn : ∀ seat total, f (.playerAllIn seat total) = none)
    (hdealt : ∀ seat cards, f (.holeCardsDealt seat cards) = none) :
    (setupEvents e deck s).filterMap f = [] := by
  refine List.filterMap_eq_nil_iff.mpr fun event hevent => ?_
  rcases setupEvents_reports deck s event hevent with ⟨seat, total, rfl⟩ | ⟨seat, cards, rfl⟩
  · exact hallIn seat total
  · exact hdealt seat cards

theorem setupHand_filterMap {β : Type*} {f : EngineEvent → Option β} {s s' : GameState n}
    {deck deck' : Deck} {seatKinds : Option (List SeatKind)} {canonicalBb : ℕ}
    {events : List EngineEvent}
    (h : setupHand e deck s seatKinds = some (s', deck', canonicalBb, events))
    (hallIn : ∀ seat total, f (.playerAllIn seat total) = none)
    (hdealt : ∀ seat cards, f (.holeCardsDealt seat cards) = none) : events.filterMap f = [] := by
  rw [← setupEvents_eq h]
  exact setupEvents_filterMap deck s hallIn hdealt

theorem performAction_allIn (s : GameState n) (seat : Fin n) (action : Action) :
    ∀ event ∈ (Engine.performAction s seat action).2.2,
      ∃ seat total, event = .playerAllIn seat total := by
  intro event hevent
  cases action with
  | call =>
    simp only [Engine.performAction] at hevent
    split at hevent
    · exact ⟨_, _, List.mem_singleton.mp hevent⟩
    · simp at hevent
  | allIn =>
    simp only [Engine.performAction] at hevent
    split_ifs at hevent <;> exact ⟨_, _, List.mem_singleton.mp hevent⟩
  | _ => simp [Engine.performAction] at hevent

/-- An applied action is announced with the chips then in the pot and in front of the
seats, and nothing announces the end of the hand. -/
theorem Reached.announces {handId deckSeed : ℕ} {startingStacks : List ℕ} {dealer : ℕ}
    {s : GameState startingStacks.length} {events : List EngineEvent}
    (h : Reached e handId deckSeed startingStacks dealer s events) :
    ∀ event ∈ events, event.Announces handId deckSeed dealer s := by
  intro event hevent
  have hallIn : (∃ seat total, event = .playerAllIn seat total) →
      event.Announces handId deckSeed dealer s := by
    rintro ⟨seat, total, rfl⟩
    trivial
  cases h with
  | started =>
    rw [List.mem_singleton.mp hevent]
    exact ⟨rfl, rfl, rfl⟩
  | antesPosted _ => exact hallIn (antesPosted_allIn _ event hevent)
  | blindsPosted _ hpost => exact hallIn (postBlinds_allIn hpost event hevent)
  | holeCardsDealt _ _ hdeal =>
    obtain ⟨seat, cards, rfl⟩ := dealHoleCards_dealt hdeal event hevent
    trivial
  | acted _ hactive raw =>
    rcases List.mem_append.mp hevent with hbefore | htaken
    · exact hallIn (performAction_allIn _ _ _ event hbefore)
    · rw [List.mem_singleton.mp htaken]
      rfl
  | boardDealt _ hdeal =>
    obtain ⟨cards, -, -, rfl⟩ := dealBoardCards_board hdeal
    rw [List.mem_singleton.mp hevent]
    trivial
  | deadHandsFolded | asked | collected | streetBegun | boardFilled => simp at hevent

/-! ## The states of a run -/

/-- The prompt is made in, or the event emitted on the way into, such a state. -/
def Output.From (R : GameState n → List EngineEvent → Prop) : Output n → Prop
  | .event reported | .notify reported => ∃ s events, R s events ∧ reported ∈ events
  | .prompt d _ => ∃ events, R d.state events

/-- The round leaves such a state. -/
def RoundOutcome.From (R : GameState n → List EngineEvent → Prop) : RoundOutcome n → Prop
  | .winner _ s _ | .ended s _ => ∃ events, R s events
  | _ => True

/-- The award is made in such a state. -/
def HandOutcome.From (e : Engine) (R : GameState n → List EngineEvent → Prop) :
    HandOutcome n → Prop
  | .finished _ players chipDeltas _ => ∃ s events s', R s events ∧ players = s'.players ∧
      ((∃ winner, Engine.awardUncontested s winner = (s', chipDeltas)) ∨
        e.resolveShowdown s = some (s', chipDeltas))
  | _ => True

/-- A run whose prompts, events and award come from such states. -/
def RunFrom (e : Engine) (R : GameState n → List EngineEvent → Prop)
    (run : List (Output n) × HandOutcome n) : Prop :=
  (∀ output ∈ run.1, output.From R) ∧ run.2.From e R

theorem unsettled_of_seek {s : GameState n} {hasResponded : Fin n → Bool} {current seat : Fin n}
    (h : seek s hasResponded n current = .prompt seat) : s.unsettled hasResponded seat := by
  rw [seek_eq] at h
  split at h
  case h_1 seat' hfind =>
    obtain rfl := Seek.prompt.inj h
    simpa using List.find?_some hfind
  case h_2 => simp at h

section Hand

variable {handId deckSeed : ℕ} {startingStacks : List ℕ} {dealer : ℕ}
  {s : GameState startingStacks.length} {events : List EngineEvent}

/-- The events of an answer come from the state after it. -/
theorem Reached.answer {d : Decision startingStacks.length}
    (h : Reached e handId deckSeed startingStacks dealer d.state events)
    (hactive : (d.state.players d.seat).status = .active) (raw : Action) :
    (∀ output ∈ (d.answer raw).1,
      output.From (Reached e handId deckSeed startingStacks dealer)) ∧
      match (d.answer raw).2 with
      | .winner _ s => ∃ events, Reached e handId deckSeed startingStacks dealer s events
      | .next s _ _ => ∃ events, Reached e handId deckSeed startingStacks dealer s events
      | .panicked => True := by
  have hacted := h.acted hactive raw
  have houtputs : ∀ output ∈ (Engine.applyAction d.state d.seat
      (Engine.normalizeAction d.state d.seat raw)).2.2.map Output.event ++
        [.notify (.actionTaken d.seat (Engine.normalizeAction d.state d.seat raw)
          (Engine.applyAction d.state d.seat
            (Engine.normalizeAction d.state d.seat raw)).1.potTotal)],
      output.From (Reached e handId deckSeed startingStacks dealer) := by
    intro output houtput
    rcases List.mem_append.mp houtput with hevent | hnotify
    · obtain ⟨event, hmem, rfl⟩ := List.mem_map.mp hevent
      exact ⟨_, _, hacted, hmem⟩
    · rw [List.mem_singleton.mp hnotify]
      exact ⟨_, _, hacted, List.mem_append_right _ (List.mem_singleton_self _)⟩
  rw [Decision.answer]
  split
  · split
    · exact ⟨houtputs, _, hacted⟩
    · exact ⟨houtputs, trivial⟩
  · exact ⟨houtputs, _, hacted⟩

/-- A betting round stays in the states reached. -/
theorem Reached.runBettingRound (answers : List Action)
    (h : Reached e handId deckSeed startingStacks dealer s events)
    (hasResponded : Fin startingStacks.length → Bool) (current : Fin startingStacks.length) :
    (∀ output ∈ (runBettingRound e answers s hasResponded current).1,
      output.From (Reached e handId deckSeed startingStacks dealer)) ∧
      (runBettingRound e answers s hasResponded current).2.From
        (Reached e handId deckSeed startingStacks dealer) := by
  refine runBettingRound_cases (fun _ s _ _ round =>
    ∀ events, Reached e handId deckSeed startingStacks dealer s events →
      (∀ output ∈ round.1, output.From (Reached e handId deckSeed startingStacks dealer)) ∧
        round.2.From (Reached e handId deckSeed startingStacks dealer)) ?allDone ?blind ?waiting
    ?answered answers s hasResponded current events h
  case allDone => exact fun _ _ _ _ _ _ h => ⟨by simp, _, h.asked none⟩
  case blind => exact fun _ _ _ _ _ _ _ _ _ => ⟨by simp, trivial⟩
  case waiting =>
    intro s hasResponded current seat obs hseek hobs events h
    refine ⟨fun output houtput => ?_, trivial⟩
    rw [List.mem_singleton.mp houtput]
    exact ⟨_, h.asked _⟩
  case answered =>
    intro raw answers s hasResponded current seat obs hseek hobs ih events h
    have hasked := h.asked (some seat)
    have hactive := unsettled_active (unsettled_of_seek hseek)
    obtain ⟨houtputs, hnext⟩ := @Reached.answer _ _ _ _ _ _
      ⟨s.setActionOn (some seat), hasResponded, seat⟩ hasked hactive raw
    have hprompt : (Output.prompt ⟨s.setActionOn (some seat), hasResponded, seat⟩ obs).From
        (Reached e handId deckSeed startingStacks dealer) := ⟨_, hasked⟩
    have hfirst := List.forall_mem_cons.mpr ⟨hprompt, houtputs⟩
    rcases hanswer : (Decision.answer ⟨s.setActionOn (some seat), hasResponded, seat⟩ raw).2 with
      ⟨winner, t⟩ | ⟨t, hasResponded', current'⟩ | _
    · rw [hanswer] at hnext
      exact ⟨List.forall_mem_append.mpr ⟨hfirst, by simp [Answer.goOn]⟩, hnext⟩
    · rw [hanswer] at hnext
      obtain ⟨events', hreached⟩ := hnext
      obtain ⟨hlater, hround⟩ := ih t hasResponded' current' hanswer events' hreached
      exact ⟨List.forall_mem_append.mpr ⟨hfirst, hlater⟩, hround⟩
    · exact ⟨List.forall_mem_append.mpr ⟨hfirst, by simp [Answer.goOn]⟩, trivial⟩

theorem runFrom_panicked {R : GameState n → List EngineEvent → Prop} :
    RunFrom e R ([], .panicked) := ⟨by simp, trivial⟩

/-- Dealing the rest of the board stays in the states reached. -/
theorem Reached.dealRemainingStreets (streets : List (Street × ℕ)) (deck : Deck)
    (h : Reached e handId deckSeed startingStacks dealer s events) :
    (∀ event ∈ (Engine.dealRemainingStreets streets s deck).1, ∃ s events,
      Reached e handId deckSeed startingStacks dealer s events ∧ event ∈ events) ∧
      ∀ s' deck', (Engine.dealRemainingStreets streets s deck).2 = some (s', deck') →
        ∃ events, Reached e handId deckSeed startingStacks dealer s' events := by
  induction streets generalizing s deck events with
  | nil =>
    refine ⟨by simp [Engine.dealRemainingStreets], fun s' deck' hdealt => ?_⟩
    obtain ⟨rfl, -⟩ := Prod.mk.inj (Option.some.inj hdealt)
    exact ⟨_, h⟩
  | cons next streets ih =>
    obtain ⟨street, count⟩ := next
    rw [Engine.dealRemainingStreets]
    split
    · refine ⟨by simp, fun s' deck' hdealt => ?_⟩
      obtain ⟨rfl, -⟩ := Prod.mk.inj (Option.some.inj hdealt)
      exact ⟨_, h⟩
    · split
      · split
        · exact ⟨by simp, by simp⟩
        · rename_i s₁ deck₁ event hdeal
          have hdealt := h.boardDealt hdeal
          obtain ⟨hevents, hstate⟩ := ih deck₁ hdealt
          exact ⟨List.forall_mem_cons.mpr ⟨⟨_, _, hdealt, by simp⟩, hevents⟩, hstate⟩
      · exact ih deck h

/-- A showdown is resolved in a state reached. -/
theorem Reached.runShowdown (deck : Deck) (answers : List Action)
    (h : Reached e handId deckSeed startingStacks dealer s events) :
    RunFrom e (Reached e handId deckSeed startingStacks dealer)
      (runShowdown e deck s answers) := by
  have hboard : (∀ event ∈ (Engine.dealRemainingBoard s deck).1, ∃ s events,
      Reached e handId deckSeed startingStacks dealer s events ∧ event ∈ events) ∧
      ∀ s' deck', (Engine.dealRemainingBoard s deck).2 = some (s', deck') →
        ∃ events, Reached e handId deckSeed startingStacks dealer s' events := by
    obtain ⟨hevents, hstate⟩ := h.dealRemainingStreets Engine.postflop deck
    rw [Engine.dealRemainingBoard]
    split
    · refine ⟨by simp, fun s' deck' hdealt => ?_⟩
      obtain ⟨rfl, -⟩ := Prod.mk.inj (Option.some.inj hdealt)
      exact ⟨_, h⟩
    · refine ⟨hevents, fun s' deck' hdealt => ?_⟩
      simp only [Option.bind_eq_bind, Option.bind_eq_some_iff, Option.some.injEq, Prod.mk.injEq,
        Prod.exists] at hdealt
      obtain ⟨s₁, deck₁, hstreets, cards, _, -, rfl, -⟩ := hdealt
      obtain ⟨events₁, hreached⟩ := hstate s₁ deck₁ hstreets
      exact ⟨_, hreached.boardFilled cards⟩
  rw [Game.runShowdown]
  refine ⟨fun output houtput => ?_, ?_⟩
  · obtain ⟨event, hevent, rfl⟩ := List.mem_map.mp houtput
    exact hboard.1 event hevent
  · dsimp only
    split
    · trivial
    · rename_i s₁ deck₁ hdealt
      obtain ⟨events₁, hreached⟩ := hboard.2 s₁ deck₁ hdealt
      split
      · trivial
      · rename_i s₂ chipDeltas hresolve
        exact ⟨_, _, s₂, hreached, rfl, Or.inr hresolve⟩

/-- After a round that left a state reached, the hand is awarded or goes on. -/
theorem runFrom_afterRound {round : List (Output startingStacks.length) ×
      RoundOutcome startingStacks.length}
    {proceed : GameState startingStacks.length → List Action →
      List (Output startingStacks.length) × HandOutcome startingStacks.length}
    (houtputs : ∀ output ∈ round.1,
      output.From (Reached e handId deckSeed startingStacks dealer))
    (hround : round.2.From (Reached e handId deckSeed startingStacks dealer))
    (hproceed : ∀ s events answers, Reached e handId deckSeed startingStacks dealer
        (collectStreetBets s) events →
      RunFrom e (Reached e handId deckSeed startingStacks dealer)
        (proceed (collectStreetBets s) answers)) :
    RunFrom e (Reached e handId deckSeed startingStacks dealer) (afterRound round proceed) := by
  rw [afterRound]
  split
  all_goals
    rename_i heq
    rw [heq] at hround
  · obtain ⟨events, hreached⟩ := hround
    exact ⟨houtputs, _, _, _, hreached, rfl, Or.inl ⟨_, rfl⟩⟩
  · obtain ⟨events, hreached⟩ := hround
    obtain ⟨hlater, hend⟩ := hproceed _ _ _ hreached.collected
    exact ⟨List.forall_mem_append.mpr ⟨houtputs, hlater⟩, hend⟩
  · exact ⟨houtputs, trivial⟩
  · exact ⟨houtputs, trivial⟩
  · exact ⟨houtputs, trivial⟩

/-- The streets after the flop stay in the states reached. -/
theorem Reached.runPostflop (streets : List (Street × ℕ)) (deck : Deck)
    (h : Reached e handId deckSeed startingStacks dealer (collectStreetBets s) events)
    (answers : List Action) : RunFrom e (Reached e handId deckSeed startingStacks dealer)
      (runPostflop e streets deck (collectStreetBets s) answers) := by
  induction streets generalizing s deck events answers with
  | nil =>
    rw [Game.runPostflop]
    exact h.runShowdown deck answers
  | cons next streets ih =>
    obtain ⟨street, count⟩ := next
    rw [Game.runPostflop]
    split
    · exact h.runShowdown deck answers
    · split
      · exact runFrom_panicked
      · rename_i s₁ deck₁ event hdeal
        have hdealt := (h.streetBegun street).boardDealt hdeal
        -- the card dealt is told twice, as an event and to the agents
        have hfrom : ∀ later, RunFrom e (Reached e handId deckSeed startingStacks dealer) later →
            RunFrom e (Reached e handId deckSeed startingStacks dealer)
              (.event event :: .notify event :: later.1, later.2) := by
          intro later hlater
          have hevent : ∃ s events, Reached e handId deckSeed startingStacks dealer s events ∧
              event ∈ events := ⟨_, _, hdealt, by simp⟩
          exact ⟨List.forall_mem_cons.mpr ⟨hevent, List.forall_mem_cons.mpr ⟨hevent, hlater.1⟩⟩,
            hlater.2⟩
        refine hfrom _ ?_
        split
        · rename_i first hfirst
          obtain ⟨houtputs, hround⟩ := hdealt.runBettingRound answers (fun _ => false) first
          exact runFrom_afterRound houtputs hround fun s events answers hreached =>
            ih deck₁ hreached answers
        · exact ih deck₁ hdealt.collected answers

/-- The events of the setup come from states reached, whether or not it panics. -/
theorem reached_of_setupEvents (deck : Deck) :
    ∀ event ∈ setupEvents e deck (e.initState handId startingStacks dealer), ∃ s events,
      Reached e handId deckSeed startingStacks dealer s events ∧ event ∈ events := by
  intro event hevent
  have hantes := (@Reached.started e handId deckSeed startingStacks dealer).antesPosted
  rcases setupEvents_cases (e := e) deck (e.initState handId startingStacks dealer) with
    hnone | ⟨s₁, blinds, before, after, s₂, deck', dealt, hpost, -, hdeal, hall⟩
  · rw [hnone] at hevent
    exact ⟨_, _, hantes, hevent⟩
  · have hblinds := hantes.blindsPosted hpost
    rw [hall] at hevent
    rcases List.mem_append.mp hevent with hforced | hdealt
    · rcases List.mem_append.mp hforced with hante | hblind
      · exact ⟨_, _, hantes, hante⟩
      · exact ⟨_, _, hblinds, hblind⟩
    · exact ⟨_, _, hblinds.holeCardsDealt _ hdeal, hdealt⟩

/-- The state in which the betting starts is reached, with the events before it. -/
theorem reached_of_setupHand {seatKinds : Option (List SeatKind)} {deck deck' : Deck} {bb : ℕ}
    (h : setupHand e deck (e.initState handId startingStacks dealer) seatKinds =
      some (s, deck', bb, events)) :
    (∃ events, Reached e handId deckSeed startingStacks dealer s events) ∧
      ∀ event ∈ events, ∃ s events,
        Reached e handId deckSeed startingStacks dealer s events ∧ event ∈ events := by
  rw [← setupEvents_eq h]
  obtain ⟨s₁, blinds, s₂, dealt, hpost, hdeal, hfold, rfl, rfl⟩ := setupHand_cases h
  have hantes := (@Reached.started e handId deckSeed startingStacks dealer).antesPosted
  have hcards := (hantes.blindsPosted hpost).holeCardsDealt _ hdeal
  exact ⟨⟨_, hcards.deadHandsFolded seatKinds hfold⟩, reached_of_setupEvents deck⟩

/-- The output reports the end of a hand that came out as `outcome`. -/
def Output.Reports (outcome : HandOutcome n) (output : Output n) : Prop :=
  ∃ result players chipDeltas rest, outcome = .finished result players chipDeltas rest ∧
    output = .event (.handEnded result.handId result)

/-- The report of the end adds nothing else to a run. -/
theorem reportEnd_from {R : GameState n → List EngineEvent → Prop}
    {hand : List (Output n) × HandOutcome n} (h : RunFrom e R hand) :
    (∀ output ∈ (reportEnd hand).1, output.From R ∨ output.Reports (reportEnd hand).2) ∧
      (reportEnd hand).2.From e R := by
  rw [reportEnd_snd]
  refine ⟨fun output houtput => ?_, h.2⟩
  rw [reportEnd] at houtput
  split at houtput
  · rename_i result players chipDeltas rest hout
    rcases List.mem_append.mp houtput with hrun | hend
    · exact Or.inl (h.1 output hrun)
    · exact Or.inr ⟨result, players, chipDeltas, rest, hout, List.mem_singleton.mp hend⟩
  · exact Or.inl (h.1 output houtput)

/-- A hand is a run through states reached, with the report of its end. -/
theorem runHand_eq_reportEnd (order : Fin 52 → Card) (seatKinds : Option (List SeatKind))
    (answers : List Action) :
    ∃ hand, runHand e handId deckSeed order startingStacks dealer seatKinds answers =
        reportEnd hand ∧
      RunFrom e (Reached e handId deckSeed startingStacks dealer) hand := by
  have hstarted : (Output.event (.handStarted handId dealer deckSeed)).From
      (Reached e handId deckSeed startingStacks dealer) := ⟨_, _, .started, by simp⟩
  rw [runHand]
  dsimp only
  split
  · refine ⟨(.event (.handStarted handId dealer deckSeed) :: (setupEvents e (.new order)
      (e.initState handId startingStacks dealer)).map .event, .panicked), rfl, ?_, trivial⟩
    refine List.forall_mem_cons.mpr ⟨hstarted, fun output houtput => ?_⟩
    obtain ⟨event, hevent, rfl⟩ := List.mem_map.mp houtput
    exact reached_of_setupEvents (.new order) event hevent
  · rename_i s deck canonicalBb events hsetup
    obtain ⟨⟨events', hreached⟩, hevents⟩ := @reached_of_setupHand _ _ deckSeed _ _ _ _ _ _ _ _
      hsetup
    have hfinish : ∀ later, RunFrom e (Reached e handId deckSeed startingStacks dealer) later →
        RunFrom e (Reached e handId deckSeed startingStacks dealer)
          (.event (.handStarted handId dealer deckSeed) :: events.map .event ++ later.1,
            later.2) := by
      intro later hlater
      refine ⟨List.forall_mem_cons.mpr ⟨hstarted, ?_⟩, hlater.2⟩
      refine List.forall_mem_append.mpr ⟨fun output houtput => ?_, hlater.1⟩
      obtain ⟨event, hevent, rfl⟩ := List.mem_map.mp houtput
      exact hevents event hevent
    refine ⟨_, rfl, hfinish _ ?_⟩
    split
    · refine ⟨by simp, ?_⟩
      rw [awardUncontestedAndFinish]
      split
      · trivial
      · exact ⟨_, _, _, hreached, rfl, Or.inl ⟨_, rfl⟩⟩
    · rename_i first hfirst
      obtain ⟨houtputs, hround⟩ := hreached.runBettingRound answers (fun _ => false) first
      exact runFrom_afterRound houtputs hround fun s events answers hreached =>
        hreached.runPostflop Engine.postflop deck answers

/-- The prompts and the events of a hand, but the report of its end, and its award
come from states reached. -/
theorem runHand_from (order : Fin 52 → Card) (seatKinds : Option (List SeatKind))
    (answers : List Action) :
    (∀ output ∈ (runHand e handId deckSeed order startingStacks dealer seatKinds answers).1,
      output.From (Reached e handId deckSeed startingStacks dealer) ∨
        output.Reports
          (runHand e handId deckSeed order startingStacks dealer seatKinds answers).2) ∧
      (runHand e handId deckSeed order startingStacks dealer seatKinds answers).2.From e
        (Reached e handId deckSeed startingStacks dealer) := by
  obtain ⟨hand, heq, hfrom⟩ := @runHand_eq_reportEnd e handId deckSeed startingStacks dealer
    order seatKinds answers
  rw [heq]
  exact reportEnd_from hfrom

/-- Nothing comes after the end of a hand. -/
theorem runHand_ends {order : Fin 52 → Card} {seatKinds : Option (List SeatKind)}
    {answers : List Action} {before after : List (Output startingStacks.length)} {id : ℕ}
    {result : HandResult}
    (h : (runHand e handId deckSeed order startingStacks dealer seatKinds answers).1 =
      before ++ .event (.handEnded id result) :: after) : after = [] := by
  obtain ⟨hand, heq, hfrom, -⟩ := @runHand_eq_reportEnd e handId deckSeed startingStacks dealer
    order seatKinds answers
  have hnot : Output.event (.handEnded id result) ∉ hand.1 := by
    intro hmem
    obtain ⟨s, events, hreached, hevent⟩ := hfrom _ hmem
    exact hreached.announces _ hevent
  rw [heq, reportEnd] at h
  split at h
  · obtain rfl | ⟨later, last, rfl⟩ := List.eq_nil_or_concat after
    · rfl
    · -- the report is the last output, so that this one would be in the run before it
      have hrun : hand.1 = before ++ .event (.handEnded id result) :: later := by
        rw [List.concat_eq_append, ← List.cons_append, ← List.append_assoc] at h
        exact (List.append_inj' h rfl).1
      exact absurd (hrun ▸ by simp) hnot
  · exact absurd (h ▸ by simp) hnot

end Hand

end VibePoker.Game
