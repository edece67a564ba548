import VibePoker.Server.RemoteAgent
import VibePoker.Server.Session

/-!
# The requests of a connection

The life of one connection: `JoinTable`, `LeaveTable` and `SubmitAction` as the session's
reader handles them, one after the other, and between them the agents of its seats, which
ask it to act. What else happens at the server may happen between any two of them.

## Main definitions

* `Desk` — a connection, and the server that it is connected to
* `Desk.handle` — one request, or one call of an agent
-/

namespace VibePoker.Server

open VibePoker.Game VibePoker.Net

/-- A connection, its number, and the server. -/
structure Desk where
  conn : ℕ
  connection : Connection
  server : ServerState

/-- What happens at a connection. -/
inductive TableRequest
  | joinTable (tableId buyIn : ℕ)
  | leaveTable (tableId : ℕ)
  | submitAction (tableId handId : ℕ) (action : Action)
  /-- The agent of a seat that is bound to the connection is asked for an action. -/
  | act (p : PendingAction) (deadlineMs : ℕ)
  /-- The deadline of the prompt elapses. -/
  | expire
  /-- Others do something. -/
  | elsewhere (server : ServerState)

namespace Desk

/-- The connection of a login; the prompt of the seat that was taken over, if any, moved
to it. -/
def start (conn playerId : ℕ) (username : String) (sessionId : ℤ)
    (migrated : Option PendingAction) (server : ServerState) : Desk :=
  ⟨conn, { Connection.new playerId username sessionId with pending := migrated }, server⟩

def trySend (s : Desk) (msg : ServerMessage) : Desk :=
  { s with connection := s.connection.trySend msg }

/-- The player has a seat at the table. -/
def seatedAt (s : Desk) (tableId : ℕ) : Bool :=
  (s.server.tables tableId).any fun table =>
    (table.inner.seatOf s.connection.playerId).isSome

def noSuchTable (tableId : ℕ) : String := "no such table: " ++ toString tableId

def handleJoin (s : Desk) (tableId buyIn : ℕ) : Desk :=
  if (s.server.playerTable s.connection.playerId).isSome then
    s.trySend (.actionRejected "already seated at a table")
  else
    match s.server.tables tableId with
    | none => s.trySend (.actionRejected (noSuchTable tableId))
    | some table =>
      match table.inner.sit table.config s.connection.playerId s.connection.username
        s.server.nextLink buyIn with
      | .ok (seat, inner) =>
        let seated := { s.server.setTable tableId (table.setInner inner) with
          links := Function.update s.server.links s.server.nextLink s.conn
          nextLink := s.server.nextLink + 1 }
        { s with server := seated.recordJoin s.connection.playerId tableId }.trySend
          (.joinedTable tableId seat inner.seatInfos)
      | .error reason => s.trySend (.actionRejected reason)

/-- The prompt is dropped before the table is asked whether the player sits there. -/
def handleLeave (s : Desk) (tableId : ℕ) : Desk :=
  match s.server.tables tableId with
  | none => s.trySend (.actionRejected (noSuchTable tableId))
  | some table =>
    let s := { s with connection := s.connection.cancelPending }
    match table.inner.leave s.connection.playerId with
    | .ok inner =>
      let left := (s.server.setTable tableId (table.setInner inner)).recordLeave
        s.connection.playerId
      { s with server := left }.trySend (.leftTable tableId)
    | .error reason => s.trySend (.actionRejected reason)

def handle (s : Desk) : TableRequest → Desk
  | .joinTable tableId buyIn => s.handleJoin tableId buyIn
  | .leaveTable tableId => s.handleLeave tableId
  | .submitAction tableId handId action =>
    match s.connection.deliverAction tableId handId action with
    | some (c, _) => { s with connection := c }
    | none => s.trySend (.actionRejected "no matching pending action")
  | .act p deadlineMs =>
    { s with connection := ((SeatLink.new s.connection).ask p deadlineMs).current }
  | .expire => { s with connection := { s.connection with pending := none } }
  | .elsewhere server => { s with server := server }

/-- The state after requests. -/
def run (s : Desk) (requests : List TableRequest) : Desk := requests.foldl handle s

@[simp] theorem run_concat (s : Desk) (requests : List TableRequest) (r : TableRequest) :
    s.run (requests ++ [r]) = (s.run requests).handle r := by
  rw [run, List.foldl_append]
  rfl

/-! ## What a request does -/

/-- A leave is refused without or with the prompt dropped, or it is granted. -/
inductive LeaveCase (s : Desk) (tableId : ℕ) : Desk → Prop
  | unknown (htable : s.server.tables tableId = none) :
    LeaveCase s tableId (s.trySend (.actionRejected (noSuchTable tableId)))
  | refused (htable : s.server.tables tableId ≠ none) (hseat : s.seatedAt tableId = false)
      (reason : String) :
    LeaveCase s tableId
      ({ s with connection := s.connection.cancelPending }.trySend (.actionRejected reason))
  | granted (hseat : s.seatedAt tableId = true) (server : ServerState) :
    LeaveCase s tableId
      ({ s with connection := s.connection.cancelPending, server := server }.trySend
        (.leftTable tableId))

theorem leaveCase (s : Desk) (tableId : ℕ) : LeaveCase s tableId (s.handleLeave tableId) := by
  unfold handleLeave
  split
  · exact .unknown ‹_›
  · rename_i table htable
    have hseated : s.seatedAt tableId = (table.inner.seatOf s.connection.playerId).isSome := by
      rw [seatedAt, htable]
      rfl
    simp only [Connection.cancelPending, TableInner.leave]
    cases hseat : table.inner.seatOf s.connection.playerId with
    | none => exact .refused (htable.trans_ne (Option.some_ne_none table)) (by rw [hseated, hseat]; rfl) _
    | some i => exact .granted (by rw [hseated, hseat]; rfl) _

end Desk

end VibePoker.Server
