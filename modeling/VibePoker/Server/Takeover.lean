import VibePoker.CS.Trace
import VibePoker.Client.Core
import VibePoker.Server.RemoteAgent

/-!
# A seat that was taken over, with its client

After a login took a seat over, the hand goes on: the engine's outputs reach the new
connection behind the messages of the login, the client processes them one by one,
and what the user does travels back to the session. Both directions keep the order,
and everything that was sent may still be on its way.

## Main definitions

* `SeatLink.reconnect` — the takeover at the link of the seat
* `Resumed.step` — one step of the seat and its client
* `Resumed.CanAct` — an open prompt is shown and can be answered
-/

namespace VibePoker.Server

open VibePoker.Game VibePoker.Net VibePoker.Client

/-! ## The takeover -/

/-- A login of a player. -/
structure Login where
  playerId : ℕ
  username : String
  sessionId : ℤ
  sessionKey : String
  stats : LifetimeStats

/-- The connection of a login; `Welcome` is the first message in its queue. -/
def Login.connection (login : Login) : Connection :=
  (Connection.new login.playerId login.username login.sessionId).trySend
    (.welcome protocolVersion login.playerId login.username login.sessionKey login.stats)

/-- `Table::reconnect_player` at the link of the seat: the prompt that waits moves to
the new connection and is sent again. -/
def SeatLink.reconnect (link : SeatLink) (c : Connection) (tableId seat : ℕ)
    (seats : List SeatInfo) (deadlineMs : ℕ) : SeatLink :=
  let c := c.trySend (.joinedTable tableId seat seats)
  match link.current.pending with
  | none => link.replace c
  | some p => link.replace ({ c with pending := some p }.trySend (p.prompt deadlineMs))

/-! ## The seat and its client -/

variable {n : ℕ}

/-- The links of a hand and the client of one seat. -/
structure Resumed (n : ℕ) where
  sink : BroadcastSink n
  core : ClientCore
  /-- How many messages of its connection the client has processed. -/
  read : ℕ
  /-- What the client sent and the session has not read. -/
  uplink : List ClientMessage

inductive ResumedOp (n : ℕ)
  | output (o : Output n)
  /-- Another session does something to the connection of its seat. -/
  | session (j : Fin n) (c : Connection)
  /-- Players come and go. -/
  | tableState (seats : List SeatInfo) (button : ℕ)
  /-- The deadline of the seat's prompt elapses. -/
  | expire
  /-- The client processes a message. -/
  | receive
  /-- The user does something. -/
  | intend (intent : Intent)
  /-- The session reads a message of the client. -/
  | deliver (tables : List TableInfo)

/-- The engine's output, if it is one. -/
def ResumedOp.output? : ResumedOp n → Option (Output n)
  | .output o => some o
  | .session _ _ | .tableState _ _ | .expire | .receive | .intend _ | .deliver _ => none

/-- The intents that keep the player at the table. -/
def staysAtTable : Intent → Bool
  | .listTables | .joinTable _ _ | .submitAction _ | .heartbeat => true
  | .connect _ | .connectionOpened | .register _ _ _ _ | .authenticatePassword _ _ _
  | .authenticateSession _ _ | .leaveTable _ | .disconnect | .connectionLost _ => false

/-- The message that an effect sends. -/
def sentMessage? : Effect → Option ClientMessage
  | .send msg => some msg
  | .openConnection _ | .closeConnection | .persistSessionKey _ => none

namespace Resumed

/-- The connection of seat `i`. -/
def connection (s : Resumed n) (i : Fin n) : Connection := (s.sink.links i).current

def setConnection (s : Resumed n) (i : Fin n) (c : Connection) : Resumed n :=
  { s with sink := { s.sink with
      links := Function.update s.sink.links i ((s.sink.links i).replace c) } }

def reply (s : Resumed n) (i : Fin n) (msg : ServerMessage) : Resumed n :=
  s.setConnection i ((s.connection i).trySend msg)

/-- Seat `i` right after a login took it over; `core` is the client's state before. -/
def takeover (sink : BroadcastSink n) (i : Fin n) (login : Login) (seat : ℕ)
    (seats : List SeatInfo) (deadlineMs : ℕ) (core : ClientCore) : Resumed n where
  sink := { sink with
    links := Function.update sink.links i
      ((sink.links i).reconnect login.connection sink.tableId seat seats deadlineMs) }
  core := core
  read := 0
  uplink := []

/-- The reader loop of seat `i` at a message of a player who stays. -/
def handleMessage (s : Resumed n) (i : Fin n) (tables : List TableInfo) :
    ClientMessage → Option (Resumed n)
  | .submitAction tableId handId action =>
    match (s.connection i).deliverAction tableId handId action with
    | some (c, _) => some (s.setConnection i c)
    | none => some (s.reply i (.actionRejected "no matching pending action"))
  | .heartbeat => some (s.reply i .heartbeat)
  | .listTables => some (s.reply i (.tableList tables))
  | .joinTable _ _ => some (s.reply i (.actionRejected "already seated at a table"))
  | .register _ _ _ _ _ | .authenticate _ _ _ | .leaveTable _ | .requestReplay _
  | .disconnect => none

/-- One step; `none` if it cannot happen. The engine goes on once the seat's prompt is
answered or expired. -/
def step (i : Fin n) (handId deadlineMs : ℕ) (s : Resumed n) :
    ResumedOp n → Option (Resumed n)
  | .output o =>
    if (s.connection i).pending.isNone then
      some { s with sink := (HandOp.output o).apply handId deadlineMs s.sink }
    else none
  | .session j c =>
    if j = i then none
    else some { s with sink := (HandOp.session j c).apply handId deadlineMs s.sink }
  | .tableState seats button => some (s.reply i (.tableState s.sink.tableId seats button))
  | .expire =>
    if (s.connection i).pending.isSome then
      some (s.setConnection i { s.connection i with pending := none })
    else none
  | .receive =>
    match (s.connection i).sent[s.read]? with
    | some msg =>
      some { s with core := (ClientCore.handleInbound msg s.core).1, read := s.read + 1 }
    | none => none
  | .intend intent =>
    if staysAtTable intent then
      let handled := s.core.handleIntent intent
      some { s with
        core := handled.1
        uplink := s.uplink ++ handled.2.filterMap sentMessage? }
    else none
  | .deliver tables =>
    match s.uplink with
    | [] => none
    | msg :: uplink => { s with uplink := uplink }.handleMessage i tables msg

/-- Nothing is on its way. -/
def Quiescent (i : Fin n) (s : Resumed n) : Prop :=
  s.read = (s.connection i).sent.length ∧ s.uplink = []

/-- An open prompt is shown, and every action it allows is sent when the user
submits it. -/
def CanAct (i : Fin n) (s : Resumed n) : Prop :=
  ∀ p, (s.connection i).pending = some p →
    (∃ hand, s.core.view.currentHand = some hand ∧ hand.awaitingAction = true) ∧
      ∀ action, p.legal.isLegal action = true →
        .send (.submitAction p.tableId p.handId action) ∈
          (s.core.handleIntent (.submitAction action)).2

end Resumed

end VibePoker.Server
