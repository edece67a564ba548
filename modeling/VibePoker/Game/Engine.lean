import VibePoker.Game.PotCalc

/-!
# The hand engine

One hand, from the forced bets to the award. Agents are represented by the list
of answers they give, in the order they are asked. A function that can panic
returns `none` there; `debug_assert!` is compiled out and `chip_delta` is
computed with the wrapping arithmetic of a release build.

The engine's functions keep the source's order: initialisation, street
sequencing, betting round, normalisation, legal actions, application, showdown
and awards, seat helpers.
-/

namespace VibePoker.Game

open VibePoker.Core VibePoker.Math

/-- The rules and the hand evaluator an engine runs with. -/
structure Engine where
  rules : BettingRules
  evaluator : HandEvaluator

variable {n : ℕ}

/-! ## Seat helpers -/

/-- First `Active` seat strictly after `start`, wrapping around. -/
def nextActiveAfter (start : ℕ) (players : Fin n → PlayerState) : Option (Fin n) :=
  (ringAfter n start).find? fun i => (players i).status = .active

/-- First `Active` or `AllIn` seat strictly after `start`, wrapping around. The
source's `limit` is the number of seats at every call. -/
def nextActiveAfterInList (start : ℕ) (players : Fin n → PlayerState) : Option (Fin n) :=
  (ringAfter n start).find? fun i => (players i).stillIn

/-- Number of `Active` seats. -/
def activeCount (players : Fin n → PlayerState) : ℕ :=
  (Finset.univ.filter fun i => (players i).status = .active).card

def sbSeat (s : GameState n) : ℕ :=
  ((nextActiveAfterInList s.dealer s.players).map Fin.val).getD s.dealer

def bbSeat (s : GameState n) : ℕ :=
  ((nextActiveAfterInList (sbSeat s) s.players).map Fin.val).getD (sbSeat s)

/-! ## Results -/

/-- The value of `x as i32`. -/
def toI32 (x : ℤ) : ℤ := Int.bmod x (2 ^ 32)

/-- The per-seat outcome reported for a seat that was dealt in. -/
def seatOutcome (s : GameState n) (chipDeltas : Fin n → ℤ) (i : Fin n) : SeatOutcome :=
  { seat := i
    holeCards := (s.players i).holeCards
    chipDelta := toI32 (toI32 (chipDeltas i) - toI32 (s.players i).totalCommitted)
    satOut := s.satOut i }

def buildResult (handId : ℕ) (s : GameState n) (chipDeltas : Fin n → ℤ) : HandResult :=
  { handId := handId
    board := s.board
    seats := ((List.finRange n).filter fun i => (s.players i).status ≠ .out).map
      (seatOutcome s chipDeltas) }

namespace Engine

variable (e : Engine)

/-! ## Initialisation -/

def initState (handId : ℕ) (startingStacks : List ℕ) (dealer : ℕ) :
    GameState startingStacks.length :=
  { handId := handId
    street := .preflop
    board := []
    players := fun i =>
      { stack := startingStacks.get i
        holeCards := none
        betThisStreet := 0
        totalCommitted := 0
        status := if startingStacks.get i > 0 then .active else .out }
    pot := {}
    actionOn := none
    dealer := dealer
    lastAggressor := none
    currentBet := 0
    minRaiseIncrement := e.rules.bigBlind
    cumulativeShortIncrement := 0
    satOut := fun _ => false }

/-- One seat's ante. -/
def postAnte (p : PlayerState) : PlayerState :=
  if p.status = .active then p.putAllIn e.rules.ante else p

/-- Post the ante of every `Active` seat, in seat order. -/
def postAntes (s : GameState n) : GameState n × List EngineEvent :=
  ({ s with players := fun i => e.postAnte (s.players i) },
    (List.finRange n).filterMap fun i =>
      if (s.players i).status = .active ∧ (e.postAnte (s.players i)).stack = 0 then
        some (.playerAllIn i (e.postAnte (s.players i)).totalCommitted)
      else none)

/-- Post one blind. -/
def post (s : GameState n) (seat : Fin n) (amount : ℕ) : GameState n × List EngineEvent :=
  let p := (s.players seat).putAllIn amount
  (s.setPlayer seat p, if p.stack = 0 then [.playerAllIn seat p.totalCommitted] else [])

/-- Post both blinds; `none` when a blind seat is out of range, which takes a
table without chips. -/
def postBlinds (s : GameState n) : Option (GameState n × List EngineEvent) :=
  if h : sbSeat s < n ∧ bbSeat s < n then
    let sb := post s ⟨sbSeat s, h.1⟩ e.rules.smallBlind
    let bb := post sb.1 ⟨bbSeat s, h.2⟩ e.rules.bigBlind
    some ({ bb.1 with
      currentBet := e.rules.bigBlind
      minRaiseIncrement := e.rules.bigBlind }, sb.2 ++ bb.2)
  else none

/-- Deal two cards to each listed seat that is still in. -/
def dealHoleCards : List (Fin n) → GameState n → Deck →
    Option (GameState n × Deck × List EngineEvent)
  | [], s, deck => some (s, deck, [])
  | i :: seats, s, deck =>
    if (s.players i).stillIn then do
      let (first, deck) ← deck.deal
      let (second, deck) ← deck.deal
      let s := s.setPlayer i { s.players i with holeCards := some (first, second) }
      let (s, deck, events) ← dealHoleCards seats s deck
      some (s, deck, .holeCardsDealt i (first, second) :: events)
    else dealHoleCards seats s deck

/-- The events of `dealHoleCards`, those before a panic included. -/
def holeCardEvents : List (Fin n) → GameState n → Deck → List EngineEvent
  | [], _, _ => []
  | i :: seats, s, deck =>
    if (s.players i).stillIn then
      match deck.deal with
      | none => []
      | some (first, deck) =>
        match deck.deal with
        | none => []
        | some (second, deck) =>
          let s := s.setPlayer i { s.players i with holeCards := some (first, second) }
          .holeCardsDealt i (first, second) :: holeCardEvents seats s deck
    else holeCardEvents seats s deck

/-- Is `seat` marked `DeadHand`? -/
def isDeadHand (kinds : List SeatKind) (seat : ℕ) : Bool := kinds[seat]? = some .deadHand

/-- Fold the dead hands; `none` when a dead hand is designated beyond the table. -/
def foldDeadHands (seatKinds : Option (List SeatKind)) (s : GameState n) : Option (GameState n) :=
  match seatKinds with
  | none => some s
  | some kinds =>
    -- the source indexes the players with every seat that is marked
    if ∃ seat ∈ List.range kinds.length, n ≤ seat ∧ isDeadHand kinds seat then none
    else
      let dead := fun i : Fin n => isDeadHand kinds i && (s.players i).status ≠ .out
      some { s with
        players := fun i => if dead i then { s.players i with status := .folded } else s.players i
        satOut := fun i => dead i || s.satOut i }

/-! ## Street sequencing -/

def beginStreet (s : GameState n) (street : Street) : GameState n :=
  { s with
    street := street
    currentBet := 0
    minRaiseIncrement := e.rules.bigBlind
    cumulativeShortIncrement := 0
    lastAggressor := none
    players := fun i => { s.players i with betThisStreet := 0 } }

/-- The seat that opens the betting of a postflop street; `none` when fewer than
two seats can act. -/
def firstToAct (s : GameState n) : Option (Fin n) :=
  if 2 ≤ activeCount s.players then nextActiveAfter s.dealer s.players else none

def dealBoardCards (s : GameState n) (deck : Deck) (count : ℕ) (street : Street) :
    Option (GameState n × Deck × EngineEvent) := do
  let (cards, deck) ← deck.dealMany count
  some (s.extendBoard cards, deck, .boardDealt street cards)

/-- The street loop of `dealRemainingBoard`; `dealt` is the current board size
and the sum over the streets not yet visited is the source's reversed `take`. -/
def dealRemainingStreets : List (Street × ℕ) → GameState n → Deck →
    List EngineEvent × Option (GameState n × Deck)
  | [], s, deck => ([], some (s, deck))
  | (street, count) :: streets, s, deck =>
    if 5 ≤ s.board.length then ([], some (s, deck))
    else if s.board.length < count + (5 - (count + (streets.map Prod.snd).sum)) then
      match dealBoardCards s deck (min count (5 - s.board.length)) street with
      | none => ([], none)
      | some (s, deck, event) =>
        let later := dealRemainingStreets streets s deck
        (event :: later.1, later.2)
    else dealRemainingStreets streets s deck

/-- The streets after the preflop, with the number of board cards of each. -/
def postflop : List (Street × ℕ) := [(.flop, 3), (.turn, 1), (.river, 1)]

/-- Fill the board up to five cards. -/
def dealRemainingBoard (s : GameState n) (deck : Deck) :
    List EngineEvent × Option (GameState n × Deck) :=
  if 5 - s.board.length = 0 then ([], some (s, deck))
  else
    let streets := dealRemainingStreets postflop s deck
    (streets.1, do
      let (s, deck) ← streets.2
      let (cards, deck) ← deck.dealMany (5 - s.board.length)
      some (s.extendBoard cards, deck))

/-! ## Action normalisation and legality -/

/-- Rewrite a submitted action before it is applied. -/
def normalizeAction (s : GameState n) (seat : Fin n) (action : Action) : Action :=
  match action with
  | .raise amount =>
    let p := s.players seat
    let additional := amount - p.betThisStreet
    -- a raise of all chips, or of more
    if additional ≥ p.stack then .allIn
    else
      let minRaiseTotal := s.currentBet + s.minRaiseIncrement
      -- one that is too small becomes a check or a call
      if amount < minRaiseTotal then
        if s.currentBet - p.betThisStreet = 0 then .check else .call
      else .raise amount
  | action => action

def computeLegalActions (s : GameState n) (seat : Fin n) (canReopen : Bool) : LegalActions :=
  let p := s.players seat
  let owed := s.currentBet - p.betThisStreet
  let minRaiseTotal := s.currentBet + s.minRaiseIncrement
  { canCheck := owed = 0
    -- a call that would take the whole stack is offered as an all-in only
    canCall := owed > 0 ∧ p.stack > owed
    callAmount := min owed p.stack
    canRaise := canReopen && match e.rules.variant with
      | .noLimit | .potLimit => p.stack + p.betThisStreet > minRaiseTotal
      | .fixedLimit => p.stack + p.betThisStreet ≥ minRaiseTotal
    minRaise := minRaiseTotal
    maxRaise := match e.rules.variant with
      | .noLimit => p.stack + p.betThisStreet
      | .potLimit =>
        let potAfterCall := s.pot.total + owed
        min (p.stack + p.betThisStreet) (owed + potAfterCall + potAfterCall)
      | .fixedLimit => minRaiseTotal
    allInAmount := p.stack }

/-! ## Action application -/

/-- The effect of an action on the betting state: the new state, whether the
action reopens the betting, and the all-in event if it puts the seat all-in. -/
def performAction (s : GameState n) (seat : Fin n) :
    Action → GameState n × Bool × List EngineEvent
  | .fold => (s.setPlayer seat { s.players seat with status := .folded }, false, [])
  | .check => (s, false, [])
  | .call =>
    let p := (s.players seat).putAllIn (s.currentBet - (s.players seat).betThisStreet)
    (s.setPlayer seat p, false,
      if p.stack = 0 then [.playerAllIn seat p.totalCommitted] else [])
  | .raise amount =>
    let prevBet := (s.players seat).betThisStreet
    let p := (s.players seat).put (amount - prevBet)
    let newTotal := p.betThisStreet
    ({ s.setPlayer seat p with
      minRaiseIncrement := newTotal - s.currentBet
      cumulativeShortIncrement := 0
      currentBet := newTotal
      lastAggressor := some seat }, true, [])
  | .allIn =>
    let p := { (s.players seat).put (s.players seat).stack with status := .allIn }
    let allInTotal := p.betThisStreet
    let s' := s.setPlayer seat p
    let events := [.playerAllIn seat p.totalCommitted]
    if allInTotal > s.currentBet then
      let increment := allInTotal - s.currentBet
      let s' := { s' with currentBet := allInTotal, lastAggressor := some seat }
      -- a full raise, or one that is short; short ones add up until they make a full one
      if increment ≥ s.minRaiseIncrement then
        ({ s' with minRaiseIncrement := increment, cumulativeShortIncrement := 0 }, true, events)
      else
        let cumulative := s.cumulativeShortIncrement + increment
        ({ s' with cumulativeShortIncrement := cumulative },
          cumulative ≥ s.minRaiseIncrement, events)
    else (s', false, events)

/-- Apply a normalised action and report it. -/
def applyAction (s : GameState n) (seat : Fin n) (action : Action) :
    GameState n × Bool × List EngineEvent :=
  let r := performAction s seat action
  (r.1, r.2.1, r.2.2 ++ [.actionTaken seat action r.1.potTotal])

/-- `hasResponded` after `seat` acted: an aggression makes everyone else respond
again. -/
def respond (hasResponded : Fin n → Bool) (seat : Fin n) (wasAggression : Bool) :
    Fin n → Bool :=
  fun i => if i = seat then true else if wasAggression then false else hasResponded i

/-! ## Showdown and awards -/

/-- The hand ranks of the eligible seats; `none` when one holds no cards. -/
def showdownRanks (s : GameState n) (eligible : List (Fin n)) : Option (List (Fin n × ℕ)) :=
  eligible.mapM fun seat =>
    (s.players seat).holeCards.map fun hole =>
      (seat, e.evaluator.rank7 (hole.1 :: hole.2 :: s.board))

/-- The seats of `ranks` with the best rank. -/
def bestSeats (ranks : List (Fin n × ℕ)) : List (Fin n) :=
  let best := (ranks.map Prod.snd).foldl max 0
  (ranks.filter fun r => r.2 = best).map Prod.fst

/-- Split `amount` evenly; the remainder goes to the first winner left of the
dealer. -/
def splitPot (dealer amount : ℕ) (winners : List (Fin n)) : Fin n → ℤ :=
  let share := amount / winners.length
  let remainder := amount % winners.length
  let first := (ringAfter n dealer).find? (· ∈ winners)
  fun i => (if i ∈ winners then (share : ℤ) else 0) +
    if remainder > 0 ∧ first = some i then (remainder : ℤ) else 0

/-- What one pot pays each seat. -/
def awardPot (s : GameState n) (pot : ℕ × List (Fin n)) : Option (Fin n → ℤ) :=
  match pot with
  | (amount, eligible) =>
    if eligible = [] ∨ amount = 0 then some fun _ => 0
    else match eligible with
      -- a lone seat wins without its cards being ranked
      | [seat] => some fun i => if i = seat then (amount : ℤ) else 0
      | eligible => do
        let ranks ← e.showdownRanks s eligible
        some (splitPot s.dealer amount (bestSeats ranks))

/-- What all the pots pay each seat together. -/
def awardPots (s : GameState n) : List (ℕ × List (Fin n)) → Option (Fin n → ℤ)
  | [] => some fun _ => 0
  | pot :: pots => do
    let award ← e.awardPot s pot
    let awards ← awardPots s pots
    some fun i => award i + awards i

/-- Pay out a showdown; `none` unless the board is complete. -/
def resolveShowdown (s : GameState n) : Option (GameState n × (Fin n → ℤ)) :=
  if s.board.length = 5 then do
    let deltas ← e.awardPots s (buildShowdownPots s.players)
    some ({ s with
      players := fun i =>
        { s.players i with stack := ((s.players i).stack + deltas i).toNat } }, deltas)
  else none

/-- Give the whole pot to `winner`. -/
def awardUncontested (s : GameState n) (winner : Fin n) : GameState n × (Fin n → ℤ) :=
  let s := collectStreetBets s
  let total := s.pot.total
  ({ s with
    players := fun i =>
      if i = winner then { s.players i with stack := (s.players i).stack + total }
      else s.players i
    pot := { s.pot with main := 0 } },
    fun i => if i = winner then (total : ℤ) else 0)

end Engine

end VibePoker.Game
