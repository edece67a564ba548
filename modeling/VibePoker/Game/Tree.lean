import VibePoker.Game.Hand

/-!
# The hand as a stepper

`GameTree` runs the same hand one answer at a time. It has its own phase
machine: after an answer it looks for the next seat to act, and when there is
none it moves through the streets until a betting round starts or the hand is
over.
-/

namespace VibePoker.Game

open VibePoker.Core VibePoker.Math

variable {n : ℕ}

inductive Phase (n : ℕ)
  | decision (current : Fin n) (hasResponded : Fin n → Bool)
  | terminal (chipDeltas : Fin n → ℤ)

structure GameTree (n : ℕ) where
  state : GameState n
  deck : Deck
  phase : Phase n

namespace GameTree

/-- Start a hand; `none` if the setup panics or nobody is left to award. -/
def new (e : Engine) (handId deckSeed : ℕ) (order : Fin 52 → Card) (startingStacks : List ℕ)
    (dealer : ℕ) (seatKinds : Option (List SeatKind)) :
    List EngineEvent × Option (GameTree startingStacks.length) :=
  let started := .handStarted handId dealer deckSeed
  let s := e.initState handId startingStacks dealer
  match setupHand e (.new order) s seatKinds with
  | none => (started :: setupEvents e (.new order) s, none)
  | some (s, deck, canonicalBb, events) =>
    (started :: events,
      match nextActiveAfter canonicalBb s.players with
      | none => do
        let winner ← s.firstStillIn
        let award := Engine.awardUncontested s winner
        some ⟨award.1.setActionOn none, deck, .terminal award.2⟩
      | some first =>
        some ⟨s.setActionOn (some first), deck, .decision first fun _ => false⟩)

/-- The street that follows, with its number of board cards. -/
def nextStreet : Street → Option (Street × ℕ)
  | .preflop => some (.flop, 3)
  | .flop => some (.turn, 1)
  | .turn => some (.river, 1)
  | .river | .showdown => none

/-- The street loop of `advance`; four passes reach the showdown from any
street. -/
def advanceStreets (e : Engine) : ℕ → GameState n → Deck → List EngineEvent × Option (GameTree n)
  | 0, _, _ => ([], none)
  | fuel + 1, s, deck =>
    match nextStreet s.street with
    | none =>
      let board := Engine.dealRemainingBoard s deck
      (board.1, do
        let (s, deck) ← board.2
        let (s, chipDeltas) ← e.resolveShowdown { s with street := .showdown }
        some ⟨s, deck, .terminal chipDeltas⟩)
    | some (street, count) =>
      match Engine.dealBoardCards (e.beginStreet s street) deck count street with
      | none => ([], none)
      | some (s, deck, event) =>
        match Engine.firstToAct s with
        | some first =>
          ([event], some ⟨s.setActionOn (some first), deck, .decision first fun _ => false⟩)
        | none =>
          let later := advanceStreets e fuel (collectStreetBets s) deck
          (event :: later.1, later.2)

/-- From just after an action to the next decision or the end. -/
def advance (e : Engine) (s : GameState n) (deck : Deck) (current : Fin n)
    (hasResponded : Fin n → Bool) : List EngineEvent × Option (GameTree n) :=
  if s.playersStillIn = 1 then
    ([], do
      let winner ← s.firstStillIn
      let award := Engine.awardUncontested s winner
      some ⟨award.1.setActionOn none, deck, .terminal award.2⟩)
  else
    -- the next seat, once around the table, that still has to act
    match (ringAfter n current).find? fun i => s.unsettled hasResponded i with
    | some next =>
      ([], some ⟨s.setActionOn (some next), deck, .decision next hasResponded⟩)
    | none => advanceStreets e 4 ((collectStreetBets s).setActionOn none) deck

/-- Apply an answer at the current decision; `none` if that panics, which it
does at a terminal node. -/
def applyAction (e : Engine) (t : GameTree n) (action : Action) :
    List EngineEvent × Option (GameTree n) :=
  match t.phase with
  | .terminal _ => ([], none)
  | .decision seat hasResponded =>
    let normalized := Engine.normalizeAction t.state seat action
    let applied := Engine.applyAction t.state seat normalized
    let later := advance e applied.1 t.deck seat
      (Engine.respond hasResponded seat applied.2.1)
    (applied.2.2 ++ later.1, later.2)

/-- Legal actions at the current decision. -/
def legalActions (e : Engine) (t : GameTree n) : Option LegalActions :=
  match t.phase with
  | .decision current hasResponded =>
    some (e.computeLegalActions t.state current (!hasResponded current))
  | .terminal _ => none

/-- The observation at the current decision; `none` at a terminal node and when
the acting seat has no cards. -/
def observationOwned (e : Engine) (t : GameTree n) : Option Observation :=
  match t.phase with
  | .terminal _ => none
  | .decision seat hasResponded => do
    let hole ← (t.state.players seat).holeCards
    some
      { holeCards := hole
        board := t.state.board
        pot := t.state.pot
        legalActions := e.computeLegalActions t.state seat (!hasResponded seat)
        players := publicPlayers t.state.players
        street := t.state.street
        position := seat
        dealer := t.state.dealer }

/-- The final result of a tree that is over. -/
def intoResult (t : GameTree n) (handId : ℕ) : Option HandResult :=
  match t.phase with
  | .terminal chipDeltas => some (buildResult handId t.state chipDeltas)
  | .decision _ _ => none

/-- Step a tree through a list of answers, looking at the observation before
each of them, until the hand is over or the answers run out. -/
def play (e : Engine) : GameTree n → List Action → List (Output n) × HandOutcome n
  | t, answers =>
    match t.phase with
    | .terminal chipDeltas => ([], settle t.state chipDeltas answers)
    | .decision seat hasResponded =>
      match t.observationOwned e with
      | none => ([], .panicked)
      | some obs =>
        let prompt := .prompt ⟨t.state, hasResponded, seat⟩ obs
        match answers with
        | [] => ([prompt], .waiting)
        | action :: answers =>
          match t.applyAction e action with
          | (events, none) => (prompt :: events.map .event, .panicked)
          | (events, some t) =>
            let later := play e t answers
            (prompt :: events.map .event ++ later.1, later.2)

/-- Go on playing a tree that was just made or advanced. -/
def playFrom (e : Engine) (start : List EngineEvent × Option (GameTree n))
    (answers : List Action) : List (Output n) × HandOutcome n :=
  match start.2 with
  | none => (start.1.map .event, .panicked)
  | some t =>
    let later := play e t answers
    (start.1.map .event ++ later.1, later.2)

/-- A whole hand played on the stepper. -/
def playHand (e : Engine) (handId deckSeed : ℕ) (order : Fin 52 → Card) (startingStacks : List ℕ)
    (dealer : ℕ) (seatKinds : Option (List SeatKind)) (answers : List Action) :
    List (Output startingStacks.length) × HandOutcome startingStacks.length :=
  playFrom e (new e handId deckSeed order startingStacks dealer seatKinds) answers

end GameTree

end VibePoker.Game
