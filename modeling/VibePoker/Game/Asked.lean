import VibePoker.Game.Heard

/-!
# Whenever a seat is asked

Between two prompts the engine applies an answer, collects the bets or begins a street. What
these operations keep, of the events so far and the state, holds at every prompt of a hand,
also of a hand that never ends.

## Main definitions

* `Kept` — the operations keep a property
* `AskedIn` — the property holds at each prompt of a run

## Main results

* `runHand_askedIn` — what holds after the setup of a hand and is kept holds at its prompts
-/

namespace VibePoker.Game

open VibePoker.Core VibePoker.Math

variable {n : ℕ} {e : Engine}

/-- What the engine does between two prompts keeps `Inv`, of the events so far and the state. -/
structure Kept (e : Engine) (Inv : List EngineEvent → GameState n → Prop) : Prop where
  asked : ∀ past s (seat : Option (Fin n)), Inv past s → Inv past (s.setActionOn seat)
  answered : ∀ past (d : Decision n) raw, (d.state.players d.seat).status = .active →
    Inv past d.state → Inv (past ++ eventsOf (d.answer raw).1) (d.acted raw)
  collected : ∀ past (s : GameState n), Inv past s → Inv past (collectStreetBets s)
  dealt : ∀ past (s : GameState n) street cards, Inv past (collectStreetBets s) →
    Inv (past ++ [.boardDealt street cards])
      ((e.beginStreet (collectStreetBets s) street).extendBoard cards)

/-- At each prompt of a run that comes after the events `past`, the property holds. -/
def AskedIn (Inv : List EngineEvent → GameState n → Prop) (past : List EngineEvent)
    (outputs : List (Output n)) : Prop :=
  ∀ before d obs after, outputs = before ++ .prompt d obs :: after →
    Inv (past ++ eventsOf before) d.state

namespace AskedIn

variable {Inv : List EngineEvent → GameState n → Prop} {past : List EngineEvent}
  {outputs later : List (Output n)}

/-- Outputs that ask nobody. -/
theorem of_promptsOf (h : promptsOf outputs = []) : AskedIn Inv past outputs := by
  intro before d obs after hsplit
  rw [hsplit, promptsOf_append, promptsOf_cons_prompt] at h
  simp at h

theorem nil : AskedIn Inv past ([] : List (Output n)) := of_promptsOf rfl

theorem append (h : AskedIn Inv past outputs)
    (hlater : AskedIn Inv (past ++ eventsOf outputs) later) :
    AskedIn Inv past (outputs ++ later) := by
  intro before d obs after hsplit
  obtain ⟨mid, rfl, hmid⟩ | ⟨mid, hmid, hafter⟩ := List.append_eq_append_iff.mp hsplit
  · rw [eventsOf_append, ← List.append_assoc]
    exact hlater mid d obs after hmid
  · cases mid with
    | nil =>
      obtain rfl : outputs = before := by simpa using hmid
      have hfirst := hlater [] d obs after hafter.symm
      rw [eventsOf_nil, List.append_nil] at hfirst
      exact hfirst
    | cons first mid =>
      obtain ⟨rfl, -⟩ := List.cons.inj hafter
      exact h before d obs mid hmid

theorem prompt {d : Decision n} (h : Inv past d.state) (obs : Observation) :
    AskedIn Inv past [.prompt d obs] := by
  intro before d' obs' after hsplit
  cases before with
  | nil =>
    obtain ⟨rfl, -⟩ := Output.prompt.inj (List.cons.inj hsplit).1
    rw [eventsOf_nil, List.append_nil]
    exact h
  | cons first before => simp at hsplit

end AskedIn

/-! ## Rounds and streets -/

section Kept

variable {Inv : List EngineEvent → GameState n → Prop}

/-- A betting round that ends leaves the property behind. -/
def RoundOutcome.Leaves (P : GameState n → Prop) : RoundOutcome n → Prop
  | .ended s _ => P s
  | _ => True

theorem runBettingRound_askedIn (hkept : Kept e Inv) (answers : List Action) {s : GameState n}
    {past : List EngineEvent} (hinv : Inv past s) (hasResponded : Fin n → Bool)
    (current : Fin n) :
    AskedIn Inv past (runBettingRound e answers s hasResponded current).1 ∧
      (runBettingRound e answers s hasResponded current).2.Leaves
        (Inv (past ++ eventsOf (runBettingRound e answers s hasResponded current).1)) := by
  refine runBettingRound_cases (fun _ s _ _ round => ∀ past, Inv past s →
    AskedIn Inv past round.1 ∧ round.2.Leaves (Inv (past ++ eventsOf round.1))) ?allDone ?blind
    ?waiting ?answered answers s hasResponded current past hinv
  case allDone =>
    intro _ s _ _ _ past hinv
    refine ⟨.nil, ?_⟩
    rw [eventsOf_nil, List.append_nil]
    exact hkept.asked past s none hinv
  case blind => exact fun _ _ _ _ _ _ _ _ _ => ⟨.nil, trivial⟩
  case waiting =>
    intro s _ _ seat obs _ _ past hinv
    exact ⟨.prompt (hkept.asked past s (some seat) hinv) obs, trivial⟩
  case answered =>
    intro raw answers s hasResponded current seat obs hseek hobs ih past hinv
    set d : Decision n := ⟨s.setActionOn (some seat), hasResponded, seat⟩ with hd
    have hactive := unsettled_active (unsettled_of_seek hseek)
    have hasked : Inv past d.state := hkept.asked past s (some seat) hinv
    have hacted := hkept.answered past d raw hactive hasked
    -- the answer itself asks nobody
    have hfirst : AskedIn Inv past (.prompt d obs :: (d.answer raw).1) :=
      (AskedIn.prompt hasked obs).append (.of_promptsOf (promptsOf_answer d raw))
    obtain ⟨-, winner, -, hanswer⟩ | ⟨-, -, hanswer⟩ | ⟨-, hanswer⟩ := d.answer_cases raw
    · rw [hanswer, Answer.goOn]
      exact ⟨hfirst.append .nil, trivial⟩
    · rw [hanswer, Answer.goOn]
      exact ⟨hfirst.append .nil, trivial⟩
    · rw [hanswer, Answer.goOn]
      obtain ⟨hlater, hleaves⟩ := ih _ _ _ hanswer _ hacted
      refine ⟨hfirst.append hlater, ?_⟩
      rw [eventsOf_append, eventsOf_cons_prompt, ← List.append_assoc]
      exact hleaves

theorem afterRound_askedIn (hkept : Kept e Inv) {past : List EngineEvent}
    {round : List (Output n) × RoundOutcome n}
    {proceed : GameState n → List Action → List (Output n) × HandOutcome n}
    (hround : AskedIn Inv past round.1)
    (hleaves : round.2.Leaves (Inv (past ++ eventsOf round.1)))
    (hproceed : ∀ past s answers, Inv past (collectStreetBets s) →
      AskedIn Inv past (proceed (collectStreetBets s) answers).1) :
    AskedIn Inv past (afterRound round proceed).1 := by
  obtain ⟨outputs, outcome⟩ := round
  cases outcome with
  | ended s answers => exact hround.append (hproceed _ _ _ (hkept.collected _ _ hleaves))
  | _ => exact hround

theorem runPostflop_askedIn (hkept : Kept e Inv) (streets : List (Street × ℕ)) (deck : Deck)
    {s : GameState n} {past : List EngineEvent} (hinv : Inv past (collectStreetBets s))
    (answers : List Action) :
    AskedIn Inv past (runPostflop e streets deck (collectStreetBets s) answers).1 := by
  -- nobody is asked in a showdown
  have hshowdown : ∀ past deck (s : GameState n) answers,
      AskedIn Inv past (runShowdown e deck s answers).1 :=
    fun _ _ _ _ => .of_promptsOf (promptsOf_events _)
  induction streets generalizing deck s past answers with
  | nil => exact hshowdown past deck _ answers
  | cons next streets ih =>
    obtain ⟨street, count⟩ := next
    rw [runPostflop]
    split
    · exact hshowdown past deck _ answers
    · rcases hdeal : Engine.dealBoardCards (e.beginStreet (collectStreetBets s) street) deck count
        street with _ | ⟨s', deck', event⟩
      · exact .nil
      · obtain ⟨cards, -, rfl, rfl⟩ := dealBoardCards_board hdeal
        have hdealt := hkept.dealt past s street cards hinv
        have hreported : AskedIn Inv past ([.event (.boardDealt street cards),
            .notify (.boardDealt street cards)] : List (Output n)) := .of_promptsOf rfl
        refine hreported.append ?_
        cases Engine.firstToAct
            ((e.beginStreet (collectStreetBets s) street).extendBoard cards) with
        | some first =>
          obtain ⟨hround, hleaves⟩ := runBettingRound_askedIn hkept answers hdealt _ first
          exact afterRound_askedIn hkept hround hleaves fun past s answers hinv =>
            ih deck' hinv answers
        | none => exact ih deck' (hkept.collected _ _ hdealt) answers

end Kept

/-- What the setup of a hand establishes and the operations between its prompts keep holds at
every prompt of the hand. -/
theorem runHand_askedIn {handId deckSeed : ℕ} {order : Fin 52 → Card} {startingStacks : List ℕ}
    {dealer : ℕ} {seatKinds : Option (List SeatKind)}
    {Inv : List EngineEvent → GameState startingStacks.length → Prop}
    (hkept : Kept e Inv)
    (hsetup : ∀ s deck canonicalBb events,
      setupHand e (.new order) (e.initState handId startingStacks dealer) seatKinds =
          some (s, deck, canonicalBb, events) →
        Inv (.handStarted handId dealer deckSeed :: events) s)
    (answers : List Action) :
    AskedIn Inv []
      (runHand e handId deckSeed order startingStacks dealer seatKinds answers).1 := by
  have hreport : ∀ hand : List (Output startingStacks.length) ×
      HandOutcome startingStacks.length,
      AskedIn Inv [] hand.1 → AskedIn Inv [] (reportEnd hand).1 := by
    rintro ⟨outputs, _ | _ | _ | _⟩ h
    · exact h.append (.of_promptsOf rfl)
    all_goals exact h
  rw [runHand]
  rcases hopened : setupHand e (.new order) (e.initState handId startingStacks dealer) seatKinds
    with _ | ⟨s, deck, canonicalBb, events⟩
  · exact .of_promptsOf (promptsOf_events (.handStarted handId dealer deckSeed :: _))
  · have hinv := hsetup s deck canonicalBb events hopened
    set opening : List (Output startingStacks.length) :=
      .event (.handStarted handId dealer deckSeed) :: events.map .event with hopening
    have hevents : eventsOf opening = .handStarted handId dealer deckSeed :: events := by
      rw [hopening, eventsOf_cons_event, eventsOf_events]
    have hasks : promptsOf opening = [] :=
      promptsOf_events (.handStarted handId dealer deckSeed :: events)
    refine hreport _ ((AskedIn.of_promptsOf hasks).append ?_)
    rw [List.nil_append, hevents]
    cases nextActiveAfter canonicalBb s.players with
    | none => exact .nil
    | some first =>
      obtain ⟨hround, hleaves⟩ := runBettingRound_askedIn hkept answers hinv _ first
      exact afterRound_askedIn hkept hround hleaves fun past s answers hinv =>
        runPostflop_askedIn hkept _ deck hinv answers

end VibePoker.Game
