import VibePoker.Net.Protocol

/-!
# What the client shows

`ClientView` is the projection of the client's state that the frontend draws, with
the hand in flight as `CurrentHand`. Cards are shown by their index.
-/

namespace VibePoker.Client

open VibePoker.Core VibePoker.Game VibePoker.Net

/-- Where the client is. -/
inductive Phase
  | disconnected
  | connecting
  | authenticating
  | lobby
  | seated (tableId seat : ℕ)
  | ended (reason : String)
deriving DecidableEq, Repr

/-- The hand in flight. -/
structure CurrentHand where
  handId : ℕ
  dealer : ℕ
  street : Street
  holeCards : Option (ℕ × ℕ)
  board : List ℕ
  potTotal : ℕ
  foldedSeats : List ℕ
  allInSeats : List ℕ
  /-- There is an open prompt for the player. -/
  awaitingAction : Bool
  legalActions : Option LegalActions
  actionDeadlineMs : Option ℕ
  betThisStreet : List (ℕ × ℕ)
deriving DecidableEq, Repr

structure ClientView where
  phase : Phase
  playerId : Option ℕ
  username : Option String
  lifetimeStats : Option LifetimeStats
  tables : List TableInfo
  seats : List SeatInfo
  button : Option ℕ
  currentHand : Option CurrentHand
  lastActionRejection : Option String
deriving DecidableEq, Repr

/-- The hand at its start. -/
def CurrentHand.started (handId dealer : ℕ) : CurrentHand :=
  ⟨handId, dealer, .preflop, none, [], 0, [], [], false, none, none, []⟩

namespace ClientView

def empty : ClientView := ⟨.disconnected, none, none, none, [], [], none, none, none⟩

/-- The seat of the player, if it is at a table. -/
def ourSeat (view : ClientView) : Option ℕ :=
  match view.phase with
  | .seated _ seat => some seat
  | _ => none

/-- The player is at this table. -/
def isSeatedAt (view : ClientView) (tableId : ℕ) : Bool :=
  match view.phase with
  | .seated t _ => t = tableId
  | _ => false

/-- Change the hand in flight, if there is one. -/
def updateHand (view : ClientView) (f : CurrentHand → CurrentHand) : ClientView :=
  { view with currentHand := view.currentHand.map f }

@[simp] theorem updateHand_phase (view : ClientView) (f : CurrentHand → CurrentHand) :
    (view.updateHand f).phase = view.phase := rfl

@[simp] theorem updateHand_currentHand (view : ClientView) (f : CurrentHand → CurrentHand) :
    (view.updateHand f).currentHand = view.currentHand.map f := rfl

end ClientView

end VibePoker.Client
