import VibePoker.Game.Engine

/-!
# Running a hand

`runBettingRound`, `runStreets` and `runHand`, driven by a finite list of
answers. Every function returns what it did to its environment, as a list of
outputs, beside how it came out.

The loop of a betting round is split at the point where an agent is asked:
`seek` is the part of the loop that breaks or skips, `Decision.answer` the part
that handles an answer. Skipping has no bound in the source; here it is bounded
by one lap around the table, and `RoundOutcome.spinning` records a lap that did
not settle anything.

A panic is an outcome like the others: what was reported before it is kept.
-/

namespace VibePoker.Game

open VibePoker.Core VibePoker.Math

variable {n : ℕ}

/-! ## Betting round -/

/-- The seat has to act before the round can end: it is `Active` and has not both
matched the bet and responded. -/
def GameState.unsettled (s : GameState n) (hasResponded : Fin n → Bool) (i : Fin n) : Bool :=
  (s.players i).status = .active &&
    !((s.players i).betThisStreet = s.currentBet && hasResponded i)

/-- How the loop of a betting round gets to its next prompt. -/
inductive Seek (n : ℕ)
  | allDone
  | prompt (seat : Fin n)
  | spinning

/-- Up to `fuel` passes through the head of the loop. -/
def seek (s : GameState n) (hasResponded : Fin n → Bool) : ℕ → Fin n → Seek n
  | 0, _ => .spinning
  | fuel + 1, current =>
    if ∀ i, s.unsettled hasResponded i = false then .allDone
    -- this seat cannot act, or has matched the bet and responded
    else if s.unsettled hasResponded current = false then
      seek s hasResponded fuel (ringNext current)
    else .prompt current

/-- What the agent of a decision is shown; `none` if the seat has no cards. -/
def Decision.observation (e : Engine) (d : Decision n) : Option Observation :=
  (d.state.players d.seat).holeCards.map fun hole =>
    { holeCards := hole
      board := d.state.board
      pot := d.state.pot
      legalActions := e.computeLegalActions d.state d.seat (!d.hasResponded d.seat)
      players := publicPlayers d.state.players
      street := d.state.street
      position := d.seat
      dealer := d.state.dealer }

/-- How a betting round comes out. -/
inductive RoundOutcome (n : ℕ)
  | winner (seat : Fin n) (state : GameState n) (rest : List Action)
  | ended (state : GameState n) (rest : List Action)
  | waiting
  | panicked
  | spinning

/-- How a betting round goes on after an answer. -/
inductive Answer (n : ℕ)
  | winner (seat : Fin n) (state : GameState n)
  | next (state : GameState n) (hasResponded : Fin n → Bool) (current : Fin n)
  | panicked

/-- The rest of the loop body once the agent of `d` answered `raw`. -/
def Decision.answer (d : Decision n) (raw : Action) : List (Output n) × Answer n :=
  let action := Engine.normalizeAction d.state d.seat raw
  let applied := Engine.applyAction d.state d.seat action
  let s := applied.1
  let outputs := applied.2.2.map .event ++ [.notify (.actionTaken d.seat action s.potTotal)]
  let hasResponded := Engine.respond d.hasResponded d.seat applied.2.1
  if s.playersStillIn = 1 then
    match s.firstStillIn with
    | some winner => (outputs, .winner winner s)
    | none => (outputs, .panicked)
  else (outputs, .next s hasResponded (ringNext d.seat))

/-- One betting round. -/
def runBettingRound (e : Engine) : List Action → GameState n → (Fin n → Bool) → Fin n →
    List (Output n) × RoundOutcome n
  | answers, s, hasResponded, current =>
    match seek s hasResponded n current with
    | .spinning => ([], .spinning)
    | .allDone => ([], .ended (s.setActionOn none) answers)
    | .prompt seat =>
      let d : Decision n := ⟨s.setActionOn (some seat), hasResponded, seat⟩
      match d.observation e with
      | none => ([], .panicked)
      | some obs =>
        match answers with
        -- the agent has not answered yet
        | [] => ([.prompt d obs], .waiting)
        | raw :: answers =>
          match d.answer raw with
          | (outputs, .winner winner s) => (.prompt d obs :: outputs, .winner winner s answers)
          | (outputs, .panicked) => (.prompt d obs :: outputs, .panicked)
          | (outputs, .next s hasResponded current) =>
            let later := runBettingRound e answers s hasResponded current
            (.prompt d obs :: outputs ++ later.1, later.2)

/-! ## Streets -/

/-- The hand is over with final state `s` and the awards `chipDeltas`. -/
def settle (s : GameState n) (chipDeltas : Fin n → ℤ) (rest : List Action) : HandOutcome n :=
  .finished (buildResult s.handId s chipDeltas) s.players chipDeltas rest

/-- Deal the missing board cards and resolve the showdown. -/
def runShowdown (e : Engine) (deck : Deck) (s : GameState n) (answers : List Action) :
    List (Output n) × HandOutcome n :=
  let board := Engine.dealRemainingBoard s deck
  (board.1.map .event,
    match board.2 with
    | none => .panicked
    | some (s, _) =>
      match e.resolveShowdown s with
      | none => .panicked
      | some (s, chipDeltas) => settle s chipDeltas answers)

/-- Go on after a betting round: award the pot, or collect the bets and proceed
with `rest`. -/
def afterRound (round : List (Output n) × RoundOutcome n)
    (proceed : GameState n → List Action → List (Output n) × HandOutcome n) :
    List (Output n) × HandOutcome n :=
  match round.2 with
  | .winner winner s answers =>
    let award := Engine.awardUncontested s winner
    (round.1, settle award.1 award.2 answers)
  | .ended s answers =>
    let later := proceed (collectStreetBets s) answers
    (round.1 ++ later.1, later.2)
  | .waiting => (round.1, .waiting)
  | .panicked => (round.1, .panicked)
  | .spinning => (round.1, .spinning)

/-- The flop, turn and river loop, from the streets still to come. -/
def runPostflop (e : Engine) : List (Street × ℕ) → Deck → GameState n → List Action →
    List (Output n) × HandOutcome n
  | [], deck, s, answers => runShowdown e deck s answers
  | (street, count) :: streets, deck, s, answers =>
    if s.playersStillIn ≤ 1 then runShowdown e deck s answers
    else
      match Engine.dealBoardCards (e.beginStreet s street) deck count street with
      | none => ([], .panicked)
      | some (s, deck, event) =>
        let later :=
          match Engine.firstToAct s with
          | some first =>
            afterRound (runBettingRound e answers s (fun _ => false) first)
              (runPostflop e streets deck)
          -- fewer than two seats can act, so nobody is asked on this street
          | none => runPostflop e streets deck (collectStreetBets s) answers
        (.event event :: .notify event :: later.1, later.2)

/-- The preflop round and the streets after it. -/
def runStreets (e : Engine) (deck : Deck) (s : GameState n) (firstPreflop : Fin n)
    (answers : List Action) : List (Output n) × HandOutcome n :=
  afterRound (runBettingRound e answers s (fun _ => false) firstPreflop)
    (runPostflop e Engine.postflop deck)

/-! ## The whole hand -/

/-- Post the antes, if the table plays with any. -/
def antesPosted (e : Engine) (s : GameState n) : GameState n × List EngineEvent :=
  if e.rules.ante > 0 then e.postAntes s else (s, [])

/-- Forced bets, hole cards and dead hands: the state in which the preflop
betting would start, with the seat that posted the big blind. -/
def setupHand (e : Engine) (deck : Deck) (s : GameState n) (seatKinds : Option (List SeatKind)) :
    Option (GameState n × Deck × ℕ × List EngineEvent) := do
  let antes := antesPosted e s
  let (s, blinds) ← e.postBlinds antes.1
  let canonicalBb := bbSeat s
  let (s, deck, holeCards) ← Engine.dealHoleCards (List.finRange n) s deck
  let s ← Engine.foldDeadHands seatKinds s
  some (s, deck, canonicalBb, antes.2 ++ blinds ++ holeCards)

/-- The events of `setupHand`, those before a panic included. -/
def setupEvents (e : Engine) (deck : Deck) (s : GameState n) : List EngineEvent :=
  let antes := antesPosted e s
  match e.postBlinds antes.1 with
  | none => antes.2
  | some (s, blinds) => antes.2 ++ blinds ++ Engine.holeCardEvents (List.finRange n) s deck

/-- Award a hand in which nobody can be asked to the first seat still in. -/
def awardUncontestedAndFinish (s : GameState n) (answers : List Action) : HandOutcome n :=
  match s.firstStillIn with
  | none => .panicked
  | some winner =>
    let award := Engine.awardUncontested s winner
    settle award.1 award.2 answers

/-- Report the end of a finished hand. -/
def reportEnd (hand : List (Output n) × HandOutcome n) : List (Output n) × HandOutcome n :=
  match hand.2 with
  | .finished result _ _ _ => (hand.1 ++ [.event (.handEnded result.handId result)], hand.2)
  | _ => hand

/-- One complete hand. `order` is the order in which `Deck::new(deck_seed)` deals. -/
def runHand (e : Engine) (handId deckSeed : ℕ) (order : Fin 52 → Card) (startingStacks : List ℕ)
    (dealer : ℕ) (seatKinds : Option (List SeatKind)) (answers : List Action) :
    List (Output startingStacks.length) × HandOutcome startingStacks.length :=
  let started := .event (.handStarted handId dealer deckSeed)
  let s := e.initState handId startingStacks dealer
  match setupHand e (.new order) s seatKinds with
  | none => (started :: (setupEvents e (.new order) s).map .event, .panicked)
  | some (s, deck, canonicalBb, events) =>
    let later := match nextActiveAfter canonicalBb s.players with
      -- no seat is active: those still in are all-in from the forced bets
      | none => ([], awardUncontestedAndFinish s answers)
      | some first => runStreets e deck s first answers
    reportEnd (started :: events.map .event ++ later.1, later.2)

end VibePoker.Game
