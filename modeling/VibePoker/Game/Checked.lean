import VibePoker.CS.Checked
import VibePoker.Game.Run

/-!
# The engine with overflow checks

The functions of the engine that compute with chips, as a build with overflow checks runs
them: every sum, product and difference of `u32` amounts and every cast is made with a
check, and `none` is the overflow. A function that can panic for another reason returns
`some none` there. Divisions, minima and comparisons need no check, nor do the `i64`
awards.

The functions keep the order of the engine: chips of a seat, forced bets, legal actions,
actions, pots, awards and results, and then the rounds and streets of a hand.
-/

namespace VibePoker.Game

open VibePoker.Core VibePoker.CS VibePoker.Math

variable {n : ℕ}

/-! ## Seats and pots -/

namespace PlayerState

/-- `put` with checks. -/
def putChecked (p : PlayerState) (amount : ℕ) : Option PlayerState := do
  let paid := min amount p.stack
  let stack ← subWord p.stack paid
  let betThisStreet ← addWord 32 p.betThisStreet paid
  let totalCommitted ← addWord 32 p.totalCommitted paid
  some { p with
    stack := stack
    betThisStreet := betThisStreet
    totalCommitted := totalCommitted }

/-- `putAllIn` with checks. -/
def putAllInChecked (p : PlayerState) (amount : ℕ) : Option PlayerState := do
  let p ← p.putChecked amount
  some (if p.stack = 0 then { p with status := .allIn } else p)

end PlayerState

def Pot.totalChecked (pot : Pot) : Option ℕ := do
  let side ← sumWord 32 (pot.side.map SidePot.amount)
  addWord 32 pot.main side

/-- The street bets added up, in seat order. -/
def streetTotalChecked (players : Fin n → PlayerState) : Option ℕ :=
  sumWord 32 (List.ofFn fun i => (players i).betThisStreet)

/-- The `pot_total` of an action event. -/
def GameState.potTotalChecked (s : GameState n) : Option ℕ := do
  let pot ← s.pot.totalChecked
  let bets ← streetTotalChecked s.players
  addWord 32 pot bets

def collectStreetBetsChecked (s : GameState n) : Option (GameState n) := do
  let streetTotal ← streetTotalChecked s.players
  let main ← addWord 32 s.pot.main streetTotal
  some { s with
    pot := { s.pot with main := main }
    players := fun i => { s.players i with betThisStreet := 0 } }

def mergeIntoLastChecked (amount : ℕ) :
    List (ℕ × List (Fin n)) → Option (List (ℕ × List (Fin n)))
  | [] => some []
  | [pot] => do
    let merged ← addWord 32 pot.1 amount
    some [(merged, pot.2)]
  | pot :: pots => do
    let pots ← mergeIntoLastChecked amount pots
    some (pot :: pots)

def buildPotsFromChecked (players : Fin n → PlayerState) (prev : ℕ) :
    List ℕ → List (ℕ × List (Fin n)) → Option (List (ℕ × List (Fin n)))
  | [], result => some result
  | level :: levels, result => do
    let thickness ← subWord level prev
    let width ← asWord 32 (contributors players level)
    let potSlice ← mulWord 32 thickness width
    if potSlice = 0 then buildPotsFromChecked players level levels result
    else
      let eligible := eligibleSeats players level
      if eligible = [] then do
        let merged ← mergeIntoLastChecked potSlice result
        buildPotsFromChecked players level levels merged
      else buildPotsFromChecked players level levels (result ++ [(potSlice, eligible)])

def buildShowdownPotsChecked (players : Fin n → PlayerState) :
    Option (List (ℕ × List (Fin n))) :=
  buildPotsFromChecked players 0 (commitmentLevels players) []

namespace Engine

variable (e : Engine)

/-! ## Forced bets -/

def postAnteChecked (p : PlayerState) : Option PlayerState :=
  if p.status = .active then p.putAllInChecked e.rules.ante else some p

def postAntesChecked (s : GameState n) : Option (GameState n × List EngineEvent) := do
  let players ← collect fun i => e.postAnteChecked (s.players i)
  some ({ s with players := players },
    (List.finRange n).filterMap fun i =>
      if (s.players i).status = .active ∧ (players i).stack = 0 then
        some (.playerAllIn i (players i).totalCommitted)
      else none)

def postChecked (s : GameState n) (seat : Fin n) (amount : ℕ) :
    Option (GameState n × List EngineEvent) := do
  let p ← (s.players seat).putAllInChecked amount
  some (s.setPlayer seat p, if p.stack = 0 then [.playerAllIn seat p.totalCommitted] else [])

theorem sbSeat_lt {s : GameState n} (h : sbSeat s < n ∧ bbSeat s < n) : sbSeat s < n := h.1

theorem bbSeat_lt {s : GameState n} (h : sbSeat s < n ∧ bbSeat s < n) : bbSeat s < n := h.2

def postBlindsChecked (s : GameState n) : Option (Option (GameState n × List EngineEvent)) :=
  if h : sbSeat s < n ∧ bbSeat s < n then do
    let sb ← postChecked s ⟨sbSeat s, sbSeat_lt h⟩ e.rules.smallBlind
    let bb ← postChecked sb.1 ⟨bbSeat s, bbSeat_lt h⟩ e.rules.bigBlind
    some (some ({ bb.1 with
      currentBet := e.rules.bigBlind
      minRaiseIncrement := e.rules.bigBlind }, sb.2 ++ bb.2))
  else some none

/-! ## Actions -/

def normalizeActionChecked (s : GameState n) (seat : Fin n) (action : Action) : Option Action :=
  match action with
  | .raise amount =>
    let p := s.players seat
    let additional := amount - p.betThisStreet
    if additional ≥ p.stack then some .allIn
    else do
      let minRaiseTotal ← addWord 32 s.currentBet s.minRaiseIncrement
      some (if amount < minRaiseTotal then
        if s.currentBet - p.betThisStreet = 0 then .check else .call
      else .raise amount)
  | action => some action

def computeLegalActionsChecked (s : GameState n) (seat : Fin n) (canReopen : Bool) :
    Option LegalActions := do
  let p := s.players seat
  let owed := s.currentBet - p.betThisStreet
  let minRaiseTotal ← addWord 32 s.currentBet s.minRaiseIncrement
  let canRaise ← if canReopen then do
      let total ← addWord 32 p.stack p.betThisStreet
      some (match e.rules.variant with
        | .noLimit | .potLimit => decide (total > minRaiseTotal)
        | .fixedLimit => decide (total ≥ minRaiseTotal))
    else some false
  let maxRaise ← match e.rules.variant with
    | .noLimit => addWord 32 p.stack p.betThisStreet
    | .potLimit => do
      let pot ← s.pot.totalChecked
      let potAfterCall ← addWord 32 pot owed
      let callAndPot ← addWord 32 owed potAfterCall
      let potRaise ← addWord 32 callAndPot potAfterCall
      let total ← addWord 32 p.stack p.betThisStreet
      some (min total potRaise)
    | .fixedLimit => some minRaiseTotal
  some
    { canCheck := owed = 0
      canCall := owed > 0 ∧ p.stack > owed
      callAmount := min owed p.stack
      canRaise := canRaise
      minRaise := minRaiseTotal
      maxRaise := maxRaise
      allInAmount := p.stack }

def performActionChecked (s : GameState n) (seat : Fin n) :
    Action → Option (GameState n × Bool × List EngineEvent)
  | .fold => some (s.setPlayer seat { s.players seat with status := .folded }, false, [])
  | .check => some (s, false, [])
  | .call => do
    let p ← (s.players seat).putAllInChecked (s.currentBet - (s.players seat).betThisStreet)
    some (s.setPlayer seat p, false,
      if p.stack = 0 then [.playerAllIn seat p.totalCommitted] else [])
  | .raise amount => do
    let prevBet := (s.players seat).betThisStreet
    let p ← (s.players seat).putChecked (amount - prevBet)
    let newTotal ← addWord 32 prevBet (min (amount - prevBet) (s.players seat).stack)
    let increment ← subWord newTotal s.currentBet
    some ({ s.setPlayer seat p with
      minRaiseIncrement := increment
      cumulativeShortIncrement := 0
      currentBet := newTotal
      lastAggressor := some seat }, true, [])
  | .allIn => do
    let allInTotal ← addWord 32 (s.players seat).betThisStreet (s.players seat).stack
    let totalCommitted ← addWord 32 (s.players seat).totalCommitted (s.players seat).stack
    let s' := s.setPlayer seat { s.players seat with
      stack := 0
      betThisStreet := allInTotal
      totalCommitted := totalCommitted
      status := .allIn }
    let events := [.playerAllIn seat totalCommitted]
    if allInTotal > s.currentBet then do
      let increment ← subWord allInTotal s.currentBet
      let s' := { s' with currentBet := allInTotal, lastAggressor := some seat }
      if increment ≥ s.minRaiseIncrement then
        some ({ s' with minRaiseIncrement := increment, cumulativeShortIncrement := 0 }, true,
          events)
      else do
        -- a saturating addition: the check is that it does not saturate
        let cumulative ← addWord 32 s.cumulativeShortIncrement increment
        some ({ s' with cumulativeShortIncrement := cumulative },
          cumulative ≥ s.minRaiseIncrement, events)
    else some (s', false, events)

def applyActionChecked (s : GameState n) (seat : Fin n) (action : Action) :
    Option (GameState n × Bool × List EngineEvent) := do
  let r ← performActionChecked s seat action
  let potTotal ← r.1.potTotalChecked
  some (r.1, r.2.1, r.2.2 ++ [.actionTaken seat action potTotal])

/-! ## Awards -/

def resolveShowdownChecked (s : GameState n) : Option (Option (GameState n × (Fin n → ℤ))) :=
  if s.board.length = 5 then do
    let pots ← buildShowdownPotsChecked s.players
    match e.awardPots s pots with
    | none => some none
    | some deltas => do
      let paidOut ← collect fun i => wordOfInt 32 ((s.players i).stack + deltas i)
      some (some ({ s with
        players := fun i => { s.players i with stack := paidOut i } }, deltas))
  else some none

def awardUncontestedChecked (s : GameState n) (winner : Fin n) :
    Option (GameState n × (Fin n → ℤ)) := do
  let s ← collectStreetBetsChecked s
  let total ← s.pot.totalChecked
  let stack ← addWord 32 (s.players winner).stack total
  some ({ s with
    players := fun i => if i = winner then { s.players i with stack := stack } else s.players i
    pot := { s.pot with main := 0 } },
    fun i => if i = winner then (total : ℤ) else 0)

end Engine

/-! ## Results -/

/-- `seatOutcome` with exact casts to `i32` and an exact difference. -/
def seatOutcomeChecked (s : GameState n) (chipDeltas : Fin n → ℤ) (i : Fin n) :
    Option SeatOutcome := do
  let award ← asSigned 31 (chipDeltas i)
  let committed ← asSigned 31 (s.players i).totalCommitted
  let chipDelta ← asSigned 31 (award - committed)
  some
    { seat := i
      holeCards := (s.players i).holeCards
      chipDelta := chipDelta
      satOut := s.satOut i }

def buildResultChecked (handId : ℕ) (s : GameState n) (chipDeltas : Fin n → ℤ) :
    Option HandResult := do
  let seats ← ((List.finRange n).filter fun i => (s.players i).status ≠ .out).mapM
    (seatOutcomeChecked s chipDeltas)
  some { handId := handId, board := s.board, seats := seats }

def settleChecked (s : GameState n) (chipDeltas : Fin n → ℤ) (rest : List Action) :
    Option (HandOutcome n) := do
  let result ← buildResultChecked s.handId s chipDeltas
  some (.finished result s.players chipDeltas rest)

/-! ## Rounds, streets and hands -/

def Decision.observationChecked (e : Engine) (d : Decision n) : Option (Option Observation) := do
  let legal ← e.computeLegalActionsChecked d.state d.seat (!d.hasResponded d.seat)
  some ((d.state.players d.seat).holeCards.map fun hole =>
    { holeCards := hole
      board := d.state.board
      pot := d.state.pot
      legalActions := legal
      players := publicPlayers d.state.players
      street := d.state.street
      position := d.seat
      dealer := d.state.dealer })

def Decision.answerChecked (d : Decision n) (raw : Action) :
    Option (List (Output n) × Answer n) := do
  let action ← Engine.normalizeActionChecked d.state d.seat raw
  let applied ← Engine.applyActionChecked d.state d.seat action
  let s := applied.1
  let potTotal ← s.potTotalChecked
  let outputs := applied.2.2.map .event ++ [.notify (.actionTaken d.seat action potTotal)]
  let hasResponded := Engine.respond d.hasResponded d.seat applied.2.1
  some (if s.playersStillIn = 1 then
    match s.firstStillIn with
    | some winner => (outputs, .winner winner s)
    | none => (outputs, .panicked)
  else (outputs, .next s hasResponded (ringNext d.seat)))

def runBettingRoundChecked (e : Engine) : List Action → GameState n → (Fin n → Bool) → Fin n →
    Option (List (Output n) × RoundOutcome n)
  | answers, s, hasResponded, current =>
    match seek s hasResponded n current with
    | .spinning => some ([], .spinning)
    | .allDone => some ([], .ended (s.setActionOn none) answers)
    | .prompt seat =>
      let d : Decision n := ⟨s.setActionOn (some seat), hasResponded, seat⟩
      match d.observationChecked e with
      | none => none
      | some none => some ([], .panicked)
      | some (some obs) =>
        match answers with
        | [] => some ([.prompt d obs], .waiting)
        | raw :: answers =>
          match d.answerChecked raw with
          | none => none
          | some (outputs, .winner winner s) =>
            some (.prompt d obs :: outputs, .winner winner s answers)
          | some (outputs, .panicked) => some (.prompt d obs :: outputs, .panicked)
          | some (outputs, .next s hasResponded current) =>
            (runBettingRoundChecked e answers s hasResponded current).map fun later =>
              (.prompt d obs :: outputs ++ later.1, later.2)

def runShowdownChecked (e : Engine) (deck : Deck) (s : GameState n) (answers : List Action) :
    Option (List (Output n) × HandOutcome n) :=
  let board := Engine.dealRemainingBoard s deck
  match board.2 with
  | none => some (board.1.map .event, .panicked)
  | some (s, _) =>
    match e.resolveShowdownChecked s with
    | none => none
    | some none => some (board.1.map .event, .panicked)
    | some (some (s, chipDeltas)) =>
      (settleChecked s chipDeltas answers).map fun outcome => (board.1.map .event, outcome)

def afterRoundChecked (round : List (Output n) × RoundOutcome n)
    (proceed : GameState n → List Action → Option (List (Output n) × HandOutcome n)) :
    Option (List (Output n) × HandOutcome n) :=
  match round.2 with
  | .winner winner s answers => do
    let award ← Engine.awardUncontestedChecked s winner
    let outcome ← settleChecked award.1 award.2 answers
    some (round.1, outcome)
  | .ended s answers => do
    let s ← collectStreetBetsChecked s
    let later ← proceed s answers
    some (round.1 ++ later.1, later.2)
  | .waiting => some (round.1, .waiting)
  | .panicked => some (round.1, .panicked)
  | .spinning => some (round.1, .spinning)

def runPostflopChecked (e : Engine) : List (Street × ℕ) → Deck → GameState n → List Action →
    Option (List (Output n) × HandOutcome n)
  | [], deck, s, answers => runShowdownChecked e deck s answers
  | (street, count) :: streets, deck, s, answers =>
    if s.playersStillIn ≤ 1 then runShowdownChecked e deck s answers
    else
      match Engine.dealBoardCards (e.beginStreet s street) deck count street with
      | none => some ([], .panicked)
      | some (s, deck, event) =>
        let later := match Engine.firstToAct s with
          | some first => do
            let round ← runBettingRoundChecked e answers s (fun _ => false) first
            afterRoundChecked round (runPostflopChecked e streets deck)
          | none => do
            let s ← collectStreetBetsChecked s
            runPostflopChecked e streets deck s answers
        later.map fun later => (.event event :: .notify event :: later.1, later.2)

def runStreetsChecked (e : Engine) (deck : Deck) (s : GameState n) (firstPreflop : Fin n)
    (answers : List Action) : Option (List (Output n) × HandOutcome n) := do
  let round ← runBettingRoundChecked e answers s (fun _ => false) firstPreflop
  afterRoundChecked round (runPostflopChecked e Engine.postflop deck)

def antesPostedChecked (e : Engine) (s : GameState n) :
    Option (GameState n × List EngineEvent) :=
  if e.rules.ante > 0 then e.postAntesChecked s else some (s, [])

def setupHandChecked (e : Engine) (deck : Deck) (s : GameState n)
    (seatKinds : Option (List SeatKind)) :
    Option (Option (GameState n × Deck × ℕ × List EngineEvent)) := do
  let antes ← antesPostedChecked e s
  let posted ← e.postBlindsChecked antes.1
  some (do
    let (s, blinds) ← posted
    let canonicalBb := bbSeat s
    let (s, deck, holeCards) ← Engine.dealHoleCards (List.finRange n) s deck
    let s ← Engine.foldDeadHands seatKinds s
    some (s, deck, canonicalBb, antes.2 ++ blinds ++ holeCards))

def awardUncontestedAndFinishChecked (s : GameState n) (answers : List Action) :
    Option (HandOutcome n) :=
  match s.firstStillIn with
  | none => some .panicked
  | some winner => do
    let award ← Engine.awardUncontestedChecked s winner
    settleChecked award.1 award.2 answers

/-- One complete hand, run with overflow checks. -/
def runHandChecked (e : Engine) (handId deckSeed : ℕ) (order : Fin 52 → Card)
    (startingStacks : List ℕ) (dealer : ℕ) (seatKinds : Option (List SeatKind))
    (answers : List Action) :
    Option (List (Output startingStacks.length) × HandOutcome startingStacks.length) := do
  let started := .event (.handStarted handId dealer deckSeed)
  let s := e.initState handId startingStacks dealer
  let opened ← setupHandChecked e (.new order) s seatKinds
  match opened with
  | none => some (started :: (setupEvents e (.new order) s).map .event, .panicked)
  | some (s, deck, canonicalBb, events) =>
    let later := match nextActiveAfter canonicalBb s.players with
      | none => (awardUncontestedAndFinishChecked s answers).map fun outcome => ([], outcome)
      | some first => runStreetsChecked e deck s first answers
    later.map fun later => reportEnd (started :: events.map .event ++ later.1, later.2)

end VibePoker.Game
