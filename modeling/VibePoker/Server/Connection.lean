import VibePoker.Net.Protocol

/-!
# Connections and seat links

A connection is the server's end of one socket: a queue of outbound messages and
at most one prompt that waits for the client. A seat link is the seat's handle on
its current connection; it also keeps the messages of the running hand, so that a
seat can be sent them again.

`sent` is everything that was put into the outbound queue; the queue's capacity
and the oneshot channel that carries the answer to the engine are left out.
-/

namespace VibePoker.Server

open VibePoker.Game VibePoker.Net

/-! ## Connections -/

/-- A prompt that waits for the client's answer. -/
structure PendingAction where
  tableId : ℕ
  handId : ℕ
  seat : ℕ
  legal : LegalActions
deriving DecidableEq, Repr

structure Connection where
  playerId : ℕ
  username : String
  sessionId : ℤ
  sent : List ServerMessage
  pending : Option PendingAction
  departed : Bool

namespace Connection

/-- A connection to which nothing was sent yet. -/
def new (playerId : ℕ) (username : String) (sessionId : ℤ) : Connection :=
  ⟨playerId, username, sessionId, [], none, false⟩

def trySend (c : Connection) (msg : ServerMessage) : Connection :=
  { c with sent := c.sent ++ [msg] }

@[simp] theorem trySend_sent (c : Connection) (msg : ServerMessage) :
    (c.trySend msg).sent = c.sent ++ [msg] := rfl

@[simp] theorem trySend_pending (c : Connection) (msg : ServerMessage) :
    (c.trySend msg).pending = c.pending := rfl

@[simp] theorem trySend_departed (c : Connection) (msg : ServerMessage) :
    (c.trySend msg).departed = c.departed := rfl

/-- Answer the pending prompt; `none` if `action` does not match it. -/
def deliverAction (c : Connection) (tableId handId : ℕ) (action : Action) :
    Option (Connection × Action) :=
  match c.pending with
  | none => none
  | some p =>
    -- an answer to another hand leaves the prompt open
    if p.tableId ≠ tableId ∨ p.handId ≠ handId then none
    else if p.legal.isLegal action then some ({ c with pending := none }, action)
    else none

/-- Drop the pending prompt and fold from now on. -/
def cancelPending (c : Connection) : Connection := { c with departed := true, pending := none }

theorem deliverAction_eq_some {c c' : Connection} {tableId handId : ℕ} {action action' : Action}
    (h : c.deliverAction tableId handId action = some (c', action')) :
    c' = { c with pending := none } := by
  unfold Connection.deliverAction at h
  split at h
  · cases h
  · split_ifs at h
    exact (Prod.mk.inj (Option.some.inj h)).1.symm

end Connection

/-! ## Seat links -/

/-- The messages a seat was sent in the running hand. -/
structure ReplayBuffer where
  handId : Option ℕ := none
  events : List ServerMessage := []

structure SeatLink where
  current : Connection
  replay : ReplayBuffer

namespace SeatLink

def new (c : Connection) : SeatLink := ⟨c, {}⟩

/-- Bind another connection to the seat. -/
def replace (link : SeatLink) (c : Connection) : SeatLink := { link with current := c }

def replayBegin (link : SeatLink) (handId : ℕ) : SeatLink :=
  { link with replay := ⟨some handId, []⟩ }

def replayPush (link : SeatLink) (msg : ServerMessage) : SeatLink :=
  if link.replay.handId.isSome then
    { link with replay := { link.replay with events := link.replay.events ++ [msg] } }
  else link

def replayEnd (link : SeatLink) : SeatLink := { link with replay := ⟨none, []⟩ }

/-- The messages of hand `handId`, if that is the hand being played. -/
def replaySnapshot (link : SeatLink) (handId : ℕ) : Option (List ServerMessage) :=
  if link.replay.handId = some handId then some link.replay.events else none

/-- Record a message and send it to the current connection. -/
def fan (link : SeatLink) (msg : ServerMessage) : SeatLink :=
  { link.replayPush msg with current := link.current.trySend msg }

@[simp] theorem replayPush_current (link : SeatLink) (msg : ServerMessage) :
    (link.replayPush msg).current = link.current := by
  unfold replayPush
  split <;> rfl

@[simp] theorem fan_current (link : SeatLink) (msg : ServerMessage) :
    (link.fan msg).current = link.current.trySend msg := rfl

@[simp] theorem fan_replay (link : SeatLink) (msg : ServerMessage) :
    (link.fan msg).replay = (link.replayPush msg).replay := rfl

@[simp] theorem replayBegin_current (link : SeatLink) (handId : ℕ) :
    (link.replayBegin handId).current = link.current := rfl

@[simp] theorem replayEnd_current (link : SeatLink) : link.replayEnd.current = link.current := rfl

end SeatLink

end VibePoker.Server
