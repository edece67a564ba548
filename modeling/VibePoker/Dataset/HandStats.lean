import Mathlib.Logic.Function.Basic
import VibePoker.Game.State

/-!
# One row for each hand and seat

`extractHandStats` reads a log and leaves one row for each seat that a hand reports, unless
it sat out or has no class label. A hand's builders are dropped when the next hand starts
and when the hand ends.
-/

namespace VibePoker.Dataset

open VibePoker.Game

/-- One seat's experience of one hand. -/
structure HandStats where
  handId : ℕ
  seat : ℕ
  ownClass : String
  opponentsSig : String
  voluntaryPf : Bool
  raisedPf : Bool
  aggressiveActions : ℕ
  passiveActions : ℕ
  sawShowdown : Bool
  chipDelta : ℤ
deriving DecidableEq, Repr

structure Builder where
  voluntaryPf : Bool := false
  raisedPf : Bool := false
  aggressiveActions : ℕ := 0
  passiveActions : ℕ := 0
  folded : Bool := false
deriving DecidableEq, Repr

/-- What a seat's builder notes of one of its actions. -/
def Builder.onAction (entry : Builder) (street : Street) : Action → Builder
  | .raise _ | .allIn =>
    { entry with
      aggressiveActions := entry.aggressiveActions + 1
      voluntaryPf := street = .preflop || entry.voluntaryPf
      raisedPf := street = .preflop || entry.raisedPf }
  | .call =>
    { entry with
      passiveActions := entry.passiveActions + 1
      voluntaryPf := street = .preflop || entry.voluntaryPf }
  | .fold => { entry with folded := true }
  | .check => entry

/-- The classes of the other seats, sorted. -/
def opponentsSignature (seatClass : List String) (own : ℕ) : String :=
  let opps := (seatClass.zipIdx.filter fun p => p.2 ≠ own).map Prod.fst
  String.intercalate "+" (opps.mergeSort fun a b => a ≤ b)

/-- The local variables of `extractHandStats`. -/
structure Extractor where
  handId : ℕ := 0
  street : Street := .preflop
  perSeat : ℕ → Option Builder := fun _ => none
  out : List HandStats := []

namespace Extractor

/-- What is noted of a seat so far. -/
def builder (x : Extractor) (seat : ℕ) : Builder := (x.perSeat seat).getD {}

/-- The row of a seat with the class `ownClass`, from its builder. -/
def row (seatClass : List String) (handId : ℕ) (entry : Builder) (outcome : SeatOutcome)
    (ownClass : String) : HandStats :=
  { handId := handId
    seat := outcome.seat
    ownClass := ownClass
    opponentsSig := opponentsSignature seatClass outcome.seat
    voluntaryPf := entry.voluntaryPf
    raisedPf := entry.raisedPf
    aggressiveActions := entry.aggressiveActions
    passiveActions := entry.passiveActions
    sawShowdown := !entry.folded
    chipDelta := outcome.chipDelta }

/-- Push the row of one seat, unless it sat out or has no class. -/
def onOutcome (seatClass : List String) (x : Extractor) (outcome : SeatOutcome) : Extractor :=
  if outcome.satOut then x
  else
    match seatClass[outcome.seat]? with
    | none => x
    | some ownClass =>
      { x with
        perSeat := Function.update x.perSeat outcome.seat none
        out := x.out ++ [row seatClass x.handId (x.builder outcome.seat) outcome ownClass] }

def onEvent (seatClass : List String) (x : Extractor) : EngineEvent → Extractor
  | .handStarted handId _ _ =>
    { x with
      handId := handId
      street := .preflop
      perSeat := fun _ => none }
  | .boardDealt street _ => { x with street := street }
  | .actionTaken seat action _ =>
    { x with
      perSeat := Function.update x.perSeat seat ((x.builder seat).onAction x.street action) }
  | .handEnded _ result =>
    { result.seats.foldl (onOutcome seatClass) x with perSeat := fun _ => none }
  | .holeCardsDealt _ _ | .playerAllIn _ _ => x

end Extractor

def extractHandStats (events : List EngineEvent) (seatClass : List String) : List HandStats :=
  (events.foldl (Extractor.onEvent seatClass) {}).out

end VibePoker.Dataset
