import Mathlib.Algebra.BigOperators.Fin
import Mathlib.Data.Fintype.Pi
import VibePoker.Core.Deck
import VibePoker.Math.SeatRing

/-!
# Rules, table state, actions and events

The data of one hand at a table of `n` seats. Per-seat vectors have the fixed
length `n` for the whole hand, so they are functions on `Fin n` and a seat index
inside the engine is always in range. Chip amounts are exact natural numbers:
this is the engine's arithmetic as long as no `u32` sum overflows.

`Decision` and `Output` record what a run does from outside: the events it hands
to its sink, the notifications it sends to the agents, and the points at which
an agent is asked to act.
-/

namespace VibePoker.Game

open VibePoker.Core

/-! ## Rules -/

inductive BetVariant
  | noLimit
  | potLimit
  | fixedLimit
deriving DecidableEq, Repr

/-- Blinds, ante and betting structure of a table. -/
structure BettingRules where
  variant : BetVariant
  smallBlind : ℕ
  bigBlind : ℕ
  ante : ℕ
deriving DecidableEq, Repr

/-- No-limit without antes. -/
def BettingRules.noLimitHoldem (smallBlind bigBlind : ℕ) : BettingRules :=
  { variant := .noLimit
    smallBlind := smallBlind
    bigBlind := bigBlind
    ante := 0 }

/-! ## Seats -/

inductive Street
  | preflop
  | flop
  | turn
  | river
  | showdown
deriving DecidableEq, Repr

inductive PlayerStatus
  | active
  | folded
  | allIn
  | out
deriving DecidableEq, Repr

inductive SeatKind
  | live
  | deadHand
deriving DecidableEq, Repr

/-- Per-seat state for one hand. -/
structure PlayerState where
  stack : ℕ
  holeCards : Option (Card × Card)
  betThisStreet : ℕ
  totalCommitted : ℕ
  status : PlayerStatus
deriving DecidableEq, Repr

namespace PlayerState

/-- The seat still contests the pot: `Active` or `AllIn`. -/
def stillIn (p : PlayerState) : Bool := p.status = .active || p.status = .allIn

/-- Move `amount` chips, capped at the stack, into the street bet. -/
def put (p : PlayerState) (amount : ℕ) : PlayerState :=
  let paid := min amount p.stack
  { p with
    stack := p.stack - paid
    betThisStreet := p.betThisStreet + paid
    totalCommitted := p.totalCommitted + paid }

/-- `put`, marking the seat `AllIn` when nothing is left behind. -/
def putAllIn (p : PlayerState) (amount : ℕ) : PlayerState :=
  let p := p.put amount
  if p.stack = 0 then { p with status := .allIn } else p

end PlayerState

structure SidePot where
  amount : ℕ
  eligibleSeats : List ℕ
deriving DecidableEq, Repr

structure Pot where
  main : ℕ := 0
  side : List SidePot := []
deriving DecidableEq, Repr

/-- Chips in the main pot and all side pots. -/
def Pot.total (pot : Pot) : ℕ := pot.main + (pot.side.map SidePot.amount).sum

/-- The engine's state during one hand. -/
structure GameState (n : ℕ) where
  handId : ℕ
  street : Street
  board : List Card
  players : Fin n → PlayerState
  pot : Pot
  actionOn : Option (Fin n)
  dealer : ℕ
  lastAggressor : Option (Fin n)
  currentBet : ℕ
  minRaiseIncrement : ℕ
  cumulativeShortIncrement : ℕ
  satOut : Fin n → Bool

variable {n : ℕ}

namespace GameState

/-- Number of seats that still contest the pot. -/
def playersStillIn (s : GameState n) : ℕ :=
  (Finset.univ.filter fun i => (s.players i).stillIn).card

/-- Lowest seat that still contests the pot. -/
def firstStillIn (s : GameState n) : Option (Fin n) :=
  (List.finRange n).find? fun i => (s.players i).stillIn

/-- Collected pot plus the bets of the current street. -/
def potTotal (s : GameState n) : ℕ := s.pot.total + ∑ i, (s.players i).betThisStreet

/-- Replace one seat's player. -/
def setPlayer (s : GameState n) (seat : Fin n) (p : PlayerState) : GameState n :=
  { s with players := Function.update s.players seat p }

@[simp] theorem setPlayer_currentBet (s : GameState n) (seat : Fin n) (p : PlayerState) :
    (s.setPlayer seat p).currentBet = s.currentBet := rfl

@[simp] theorem setPlayer_minRaiseIncrement (s : GameState n) (seat : Fin n) (p : PlayerState) :
    (s.setPlayer seat p).minRaiseIncrement = s.minRaiseIncrement := rfl

/-- Put cards on the board. -/
def extendBoard (s : GameState n) (cards : List Card) : GameState n :=
  { s with board := s.board ++ cards }

/-- Record whose turn it is. -/
def setActionOn (s : GameState n) (seat : Option (Fin n)) : GameState n :=
  { s with actionOn := seat }

@[simp] theorem setActionOn_players (s : GameState n) (seat : Option (Fin n)) :
    (s.setActionOn seat).players = s.players := rfl

@[simp] theorem setActionOn_board (s : GameState n) (seat : Option (Fin n)) :
    (s.setActionOn seat).board = s.board := rfl

@[simp] theorem setActionOn_street (s : GameState n) (seat : Option (Fin n)) :
    (s.setActionOn seat).street = s.street := rfl

@[simp] theorem setActionOn_currentBet (s : GameState n) (seat : Option (Fin n)) :
    (s.setActionOn seat).currentBet = s.currentBet := rfl

@[simp] theorem extendBoard_board (s : GameState n) (cards : List Card) :
    (s.extendBoard cards).board = s.board ++ cards := rfl

@[simp] theorem extendBoard_players (s : GameState n) (cards : List Card) :
    (s.extendBoard cards).players = s.players := rfl

@[simp] theorem extendBoard_street (s : GameState n) (cards : List Card) :
    (s.extendBoard cards).street = s.street := rfl

end GameState

/-! ## Actions -/

inductive Action
  | fold
  | check
  | call
  | raise (amount : ℕ)
  | allIn
deriving DecidableEq, Repr

structure LegalActions where
  canCheck : Bool
  canCall : Bool
  callAmount : ℕ
  canRaise : Bool
  minRaise : ℕ
  maxRaise : ℕ
  allInAmount : ℕ
deriving DecidableEq, Repr

/-- Is `action` among the offered ones? -/
def LegalActions.isLegal (legal : LegalActions) : Action → Bool
  | .fold => true
  | .check => legal.canCheck
  | .call => legal.canCall
  | .raise amount => legal.canRaise && legal.minRaise ≤ amount && amount ≤ legal.maxRaise
  | .allIn => 0 < legal.allInAmount

/-! ## Results and events -/

structure SeatOutcome where
  seat : ℕ
  holeCards : Option (Card × Card)
  chipDelta : ℤ
  satOut : Bool
deriving DecidableEq, Repr

structure HandResult where
  handId : ℕ
  board : List Card
  seats : List SeatOutcome
deriving DecidableEq, Repr

inductive EngineEvent
  | handStarted (handId dealer deckSeed : ℕ)
  | holeCardsDealt (seat : ℕ) (cards : Card × Card)
  | boardDealt (street : Street) (cards : List Card)
  | actionTaken (seat : ℕ) (action : Action) (potTotal : ℕ)
  | playerAllIn (seat totalCommitted : ℕ)
  | handEnded (handId : ℕ) (result : HandResult)
deriving DecidableEq, Repr

/-! ## What an agent sees -/

structure PublicPlayerState where
  seat : ℕ
  stack : ℕ
  betThisStreet : ℕ
  isFolded : Bool
  isAllIn : Bool
deriving DecidableEq, Repr

structure Observation where
  holeCards : Card × Card
  board : List Card
  pot : Pot
  legalActions : LegalActions
  players : List PublicPlayerState
  street : Street
  position : ℕ
  dealer : ℕ
deriving DecidableEq, Repr

/-- The public part of every seat, in seat order. -/
def publicPlayers (players : Fin n → PlayerState) : List PublicPlayerState :=
  List.ofFn fun i =>
    { seat := i
      stack := (players i).stack
      betThisStreet := (players i).betThisStreet
      isFolded := (players i).status = .folded
      isAllIn := (players i).status = .allIn }

/-! ## Runs seen from outside -/

/-- A point of a betting round at which `seat` is asked to act. `hasResponded`
is the round's local vector of seats that acted since the last full raise. -/
structure Decision (n : ℕ) where
  state : GameState n
  hasResponded : Fin n → Bool
  seat : Fin n

/-- One thing a hand does to its environment: report an event to the sink, show
an event to every agent, or ask the agent of a seat to act. -/
inductive Output (n : ℕ)
  | event (event : EngineEvent)
  | notify (event : EngineEvent)
  | prompt (decision : Decision n) (observation : Observation)

/-- How a hand driven by a finite list of answers comes out. `rest` holds the
answers that were not asked for. -/
inductive HandOutcome (n : ℕ)
  /-- The hand ended: its result, the final seats and the chips awarded. -/
  | finished (result : HandResult) (players : Fin n → PlayerState) (chipDeltas : Fin n → ℤ)
      (rest : List Action)
  /-- The answers ran out at a prompt. -/
  | waiting
  /-- The code panicked. -/
  | panicked
  /-- The loop of a betting round went around the table without a prompt. -/
  | spinning

end VibePoker.Game
