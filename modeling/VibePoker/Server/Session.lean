import VibePoker.Server.Table

/-!
# Sessions

The server as its sessions and table actors see it: the registry's online map,
the map of players to tables, the tables, and for each session the point that its
task has reached. A step is one critical section: whatever a task does between
taking a lock and giving it back. Passwords, rate limits, requests that do not
concern seats, and what is sent to the clients are left out.

A link is a number; `links` says which connection it is bound to. A connection is
the number of its session's task, so that two connections that resume one session
differ.

## Main definitions

* `TaskPhase` — the points between the critical sections of a session's task
* `ServerState` — the state that the tasks share
* `ServerState.step` — one critical section of one task
-/

namespace VibePoker.Server

open VibePoker.Core VibePoker.Game VibePoker.Net

/-! ## State -/

/-- How far the task of a session got. -/
inductive TaskPhase
  /-- Logged in; about to look for a seat to take over. -/
  | greeted
  /-- `current_table` returned this table; about to look for the seat there. -/
  | found (tableId : ℕ)
  /-- `reconnect_player` found this link; about to bind it. -/
  | splicing (link : ℕ)
  /-- In the reader loop, between two messages. -/
  | idle
  /-- Read `JoinTable`, and was not revoked; about to call `current_table`. -/
  | requested (tableId buyIn : ℕ)
  /-- Not recorded at any table; about to sit down. -/
  | joining (tableId buyIn : ℕ)
  /-- Sat down; about to be recorded. -/
  | seated (tableId : ℕ)
  /-- Read `LeaveTable`, and was not revoked; about to leave. -/
  | leaving (tableId : ℕ)
  /-- Left; about to be taken off the record. -/
  | left
  /-- The reader loop is over; about to check whether the session is superseded. -/
  | closing
  /-- Not superseded; about to be taken off the record. -/
  | departing
  /-- Was recorded at this table; about to give up the seat. -/
  | vacating (tableId : ℕ)
  | loggingOut
  | closed
deriving DecidableEq, Repr

/-- A session's task. -/
structure Session where
  playerId : ℕ
  username : String
  sessionId : ℤ
  revoked : Bool
  phase : TaskPhase
deriving DecidableEq, Repr

/-- A table and its actor; the link of a seat is a number. -/
structure Table where
  config : TableConfig
  actor : TableActor ℕ config.maxSeats

structure ServerState where
  tables : ℕ → Option Table
  /-- The tables that players are recorded at. -/
  playerTable : ℕ → Option ℕ
  /-- The connections of the players' entries in the registry. -/
  online : ℕ → Option ℕ
  sessions : ℕ → Option Session
  /-- The connections that links are bound to. -/
  links : ℕ → ℕ
  nextLink : ℕ

def Table.inner (table : Table) : TableInner ℕ table.config.maxSeats := table.actor.inner

def Table.setInner (table : Table) (inner : TableInner ℕ table.config.maxSeats) : Table :=
  { table with actor := { table.actor with inner := inner } }

namespace ServerState

/-- A server at which nobody is logged in. -/
def new (configs : ℕ → Option TableConfig) : ServerState where
  tables tableId := (configs tableId).map fun config => ⟨config, .new⟩
  playerTable _ := none
  online _ := none
  sessions _ := none
  links _ := 0
  nextLink := 0

/-! ## Updates -/

def setSession (s : ServerState) (conn : ℕ) (session : Session) : ServerState :=
  { s with sessions := Function.update s.sessions conn (some session) }

def setTable (s : ServerState) (tableId : ℕ) (table : Table) : ServerState :=
  { s with tables := Function.update s.tables tableId (some table) }

def recordJoin (s : ServerState) (playerId tableId : ℕ) : ServerState :=
  { s with playerTable := Function.update s.playerTable playerId (some tableId) }

def recordLeave (s : ServerState) (playerId : ℕ) : ServerState :=
  { s with playerTable := Function.update s.playerTable playerId none }

/-- The session id of a connection. -/
def sessionId (s : ServerState) (conn : ℕ) : Option ℤ := (s.sessions conn).map Session.sessionId

/-- Flip the flag of the session that the registry has for a player. -/
def revoke (s : ServerState) (playerId : ℕ) : ServerState :=
  match s.online playerId with
  | none => s
  | some prev =>
    match s.sessions prev with
    | none => s
    | some session => s.setSession prev { session with revoked := true }

/-- `install_online`: register a new connection, and revoke the one before. -/
def installOnline (s : ServerState) (conn : ℕ) (session : Session) : ServerState :=
  let s := s.revoke session.playerId
  { s.setSession conn session with
    online := Function.update s.online session.playerId (some conn) }

/-- Take a player offline, if the registry still has this session. -/
def logout (s : ServerState) (conn : ℕ) (playerId : ℕ) : ServerState :=
  match s.online playerId with
  | none => s
  | some entry =>
    if s.sessionId entry = s.sessionId conn then
      { s with online := Function.update s.online playerId none }
    else s

/-- `sit` creates a link that is bound to the connection. -/
def sit (s : ServerState) (conn : ℕ) (session : Session) (tableId buyIn : ℕ) :
    Option ServerState :=
  match s.tables tableId with
  | none => none
  | some table =>
    match table.inner.sit table.config session.playerId session.username s.nextLink buyIn with
    | .error _ => none
    | .ok (_, inner) =>
      some { s.setTable tableId (table.setInner inner) with
        links := Function.update s.links s.nextLink conn
        nextLink := s.nextLink + 1 }

def leave (s : ServerState) (playerId tableId : ℕ) : Option ServerState :=
  match s.tables tableId with
  | none => none
  | some table =>
    match table.inner.leave playerId with
    | .error _ => none
    | .ok inner => some (s.setTable tableId (table.setInner inner))

/-- Give up the seat at a table if its link leads to this session. -/
def forceLeave (s : ServerState) (session : Session) (tableId : ℕ) : ServerState :=
  match s.tables tableId with
  | none => s
  | some table =>
    s.setTable tableId (table.setInner (table.inner.forceLeave
      (fun link => ((s.sessionId (s.links link)).getD 0)) session.playerId
      (some session.sessionId)))

/-- The link of a player's seat. -/
def seatLink (s : ServerState) (playerId tableId : ℕ) : Option ℕ := do
  let table ← s.tables tableId
  let i ← table.inner.seatOf playerId
  let seat ← table.inner.seats i
  some seat.link

/-! ## Steps -/

/-- One step of some task. -/
inductive ServerOp
  /-- A client authenticates; the connection is new, the session may be resumed. -/
  | login (conn playerId : ℕ) (username : String) (sessionId : ℤ)
  /-- The reader loop gets a message. -/
  | receive (conn : ℕ) (msg : ClientMessage)
  /-- The reader loop ends: the socket is closed or idle, or a limit is exceeded. -/
  | hangUp (conn : ℕ)
  /-- The next critical section of a session. -/
  | advance (conn : ℕ)
  | actor (tableId : ℕ) (op : ActorOp)

/-- What the reader loop does with a message. -/
def onMessage (s : ServerState) (session : Session) : ClientMessage → TaskPhase
  | .register .. | .authenticate .. | .disconnect => .closing
  | .joinTable tableId buyIn => .requested tableId buyIn
  | .leaveTable tableId => if (s.tables tableId).isSome then .leaving tableId else .idle
  | _ => session.phase

/-- A session gets to its next point. -/
def goto (s : ServerState) (conn : ℕ) (session : Session) (phase : TaskPhase) : ServerState :=
  s.setSession conn { session with phase := phase }

/-- The next critical section of a session, which must have one. -/
def advance (s : ServerState) (conn : ℕ) (session : Session) : Option ServerState :=
  match session.phase with
  | .greeted =>
    match s.playerTable session.playerId with
    | some tableId => some (s.goto conn session (.found tableId))
    | none => some (s.goto conn session .idle)
  | .found tableId =>
    match s.seatLink session.playerId tableId with
    | some link => some (s.goto conn session (.splicing link))
    -- nobody sits there any more
    | none => some (s.goto conn session .idle)
  | .splicing link =>
    some ({ s with links := Function.update s.links link conn }.goto conn session .idle)
  | .idle => none
  | .requested tableId buyIn =>
    -- a player who is recorded at a table is refused
    if (s.playerTable session.playerId).isSome then some (s.goto conn session .idle)
    else some (s.goto conn session (.joining tableId buyIn))
  | .joining tableId buyIn =>
    match s.sit conn session tableId buyIn with
    | some s => some (s.goto conn session (.seated tableId))
    | none => some (s.goto conn session .idle)
  | .seated tableId =>
    some ((s.recordJoin session.playerId tableId).goto conn session .idle)
  | .leaving tableId =>
    match s.leave session.playerId tableId with
    | some s => some (s.goto conn session .left)
    | none => some (s.goto conn session .idle)
  | .left => some ((s.recordLeave session.playerId).goto conn session .idle)
  -- a superseded session leaves seat and record to its successor
  | .closing => some (s.goto conn session (if session.revoked then .loggingOut else .departing))
  | .departing =>
    match s.playerTable session.playerId with
    | some tableId =>
      some ((s.recordLeave session.playerId).goto conn session (.vacating tableId))
    | none => some (s.goto conn session .loggingOut)
  | .vacating tableId => some ((s.forceLeave session tableId).goto conn session .loggingOut)
  | .loggingOut => some ((s.logout conn session.playerId).goto conn session .closed)
  | .closed => none

/-- One step; `none` if the task is not there. Each table has its own engine. -/
def step (e : ℕ → Engine) (s : ServerState) : ServerOp → Option ServerState
  | .login conn playerId username sessionId =>
    if (s.sessions conn).isSome then none
    else some (s.installOnline conn ⟨playerId, username, sessionId, false, .greeted⟩)
  | .receive conn msg =>
    match s.sessions conn with
    | none => none
    | some session =>
      if session.phase = .idle then
        -- the flag is checked before the message is looked at
        some (s.goto conn session
          (if session.revoked then .closing else s.onMessage session msg))
      else none
  | .hangUp conn =>
    match s.sessions conn with
    | none => none
    | some session =>
      if session.phase = .idle then some (s.goto conn session .closing)
      else none
  | .advance conn =>
    match s.sessions conn with
    | none => none
    | some session => s.advance conn session
  | .actor tableId op =>
    match s.tables tableId with
    | none => none
    | some table =>
      (table.actor.advance (e tableId) tableId table.config op).map fun actor =>
        s.setTable tableId { table with actor := actor }

/-! ## What a section does -/

/-- What the sections of a session do, and where they can be taken. -/
inductive SectionStep (s : ServerState) (conn : ℕ) (session : Session) : ServerState → Prop
  | lookUp {t : ℕ} (hphase : session.phase = .greeted)
      (hrecord : s.playerTable session.playerId = some t) :
      SectionStep s conn session (s.goto conn session (.found t))
  | lookUpNone (hphase : session.phase = .greeted)
      (hrecord : s.playerTable session.playerId = none) :
      SectionStep s conn session (s.goto conn session .idle)
  | seatLink {t l : ℕ} (hphase : session.phase = .found t)
      (hlink : s.seatLink session.playerId t = some l) :
      SectionStep s conn session (s.goto conn session (.splicing l))
  | seatLinkNone {t : ℕ} (hphase : session.phase = .found t)
      (hlink : s.seatLink session.playerId t = none) :
      SectionStep s conn session (s.goto conn session .idle)
  | splice {l : ℕ} (hphase : session.phase = .splicing l) :
      SectionStep s conn session
        ({ s with links := Function.update s.links l conn }.goto conn session .idle)
  | refuse {t buyIn : ℕ} (hphase : session.phase = .requested t buyIn) :
      SectionStep s conn session (s.goto conn session .idle)
  | accept {t buyIn : ℕ} (hphase : session.phase = .requested t buyIn)
      (hrecord : s.playerTable session.playerId = none) :
      SectionStep s conn session (s.goto conn session (.joining t buyIn))
  | sit {t buyIn : ℕ} {s₁ : ServerState} (hphase : session.phase = .joining t buyIn)
      (hsit : s.sit conn session t buyIn = some s₁) :
      SectionStep s conn session (s₁.goto conn session (.seated t))
  | sitNone {t buyIn : ℕ} (hphase : session.phase = .joining t buyIn) :
      SectionStep s conn session (s.goto conn session .idle)
  | recordJoin {t : ℕ} (hphase : session.phase = .seated t) :
      SectionStep s conn session ((s.recordJoin session.playerId t).goto conn session .idle)
  | leave {t : ℕ} {s₁ : ServerState} (hphase : session.phase = .leaving t)
      (hleave : s.leave session.playerId t = some s₁) :
      SectionStep s conn session (s₁.goto conn session .left)
  | leaveNone {t : ℕ} (hphase : session.phase = .leaving t)
      (hleave : s.leave session.playerId t = none) :
      SectionStep s conn session (s.goto conn session .idle)
  | recordLeave (hphase : session.phase = .left) :
      SectionStep s conn session ((s.recordLeave session.playerId).goto conn session .idle)
  | superseded (hphase : session.phase = .closing) (hrevoked : session.revoked = true) :
      SectionStep s conn session (s.goto conn session .loggingOut)
  | kept (hphase : session.phase = .closing) (hrevoked : session.revoked = false) :
      SectionStep s conn session (s.goto conn session .departing)
  | depart {t : ℕ} (hphase : session.phase = .departing)
      (hrecord : s.playerTable session.playerId = some t) :
      SectionStep s conn session
        ((s.recordLeave session.playerId).goto conn session (.vacating t))
  | departNone (hphase : session.phase = .departing)
      (hrecord : s.playerTable session.playerId = none) :
      SectionStep s conn session (s.goto conn session .loggingOut)
  | vacate {t : ℕ} (hphase : session.phase = .vacating t) :
      SectionStep s conn session ((s.forceLeave session t).goto conn session .loggingOut)
  | logOut (hphase : session.phase = .loggingOut) :
      SectionStep s conn session ((s.logout conn session.playerId).goto conn session .closed)

theorem advance_cases {s t : ServerState} {conn : ℕ} {session : Session}
    (h : s.advance conn session = some t) : SectionStep s conn session t := by
  unfold advance at h
  split at h
  · split at h <;> obtain rfl := Option.some.inj h
    · exact .lookUp ‹_› ‹_›
    · exact .lookUpNone ‹_› ‹_›
  · split at h <;> obtain rfl := Option.some.inj h
    · exact .seatLink ‹_› ‹_›
    · exact .seatLinkNone ‹_› ‹_›
  · obtain rfl := Option.some.inj h
    exact .splice ‹_›
  · cases h
  · split at h <;> obtain rfl := Option.some.inj h
    · exact .refuse ‹_›
    · rename_i hrecord
      exact .accept ‹_› (Option.not_isSome_iff_eq_none.mp hrecord)
  · split at h <;> obtain rfl := Option.some.inj h
    · exact .sit ‹_› ‹_›
    · exact .sitNone ‹_›
  · obtain rfl := Option.some.inj h
    exact .recordJoin ‹_›
  · split at h <;> obtain rfl := Option.some.inj h
    · exact .leave ‹_› ‹_›
    · exact .leaveNone ‹_› ‹_›
  · obtain rfl := Option.some.inj h
    exact .recordLeave ‹_›
  · obtain rfl := Option.some.inj h
    cases hrevoked : session.revoked with
    | true => exact .superseded ‹_› hrevoked
    | false => exact .kept ‹_› hrevoked
  · split at h <;> obtain rfl := Option.some.inj h
    · exact .depart ‹_› ‹_›
    · exact .departNone ‹_› ‹_›
  · obtain rfl := Option.some.inj h
    exact .vacate ‹_›
  · obtain rfl := Option.some.inj h
    exact .logOut ‹_›
  · cases h

/-- Where the reader loop goes from one message to the next. -/
inductive Reads : TaskPhase → Prop
  | stop : Reads .closing
  | next : Reads .idle
  | join (t buyIn : ℕ) : Reads (.requested t buyIn)
  | leave (t : ℕ) : Reads (.leaving t)

theorem onMessage_reads {s : ServerState} {session : Session} (hidle : session.phase = .idle)
    (msg : ClientMessage) : Reads (s.onMessage session msg) := by
  cases msg with
  | joinTable t buyIn => exact .join t buyIn
  | leaveTable t =>
    simp only [onMessage]
    split
    · exact .leave t
    · exact .next
  | register | authenticate | disconnect => exact .stop
  | heartbeat | listTables | submitAction | requestReplay =>
    simp only [onMessage, hidle]
    exact .next

/-- What the steps of the server do. -/
inductive ServerStep (e : ℕ → Engine) (s : ServerState) : ServerOp → ServerState → Prop
  | login {conn : ℕ} (playerId : ℕ) (username : String) (sessionId : ℤ)
      (hfresh : s.sessions conn = none) :
      ServerStep e s (.login conn playerId username sessionId)
        (s.installOnline conn ⟨playerId, username, sessionId, false, .greeted⟩)
  | receive {conn : ℕ} {session : Session} {phase : TaskPhase} (msg : ClientMessage)
      (hconn : s.sessions conn = some session) (hidle : session.phase = .idle)
      (hreads : Reads phase) :
      ServerStep e s (.receive conn msg) (s.goto conn session phase)
  | hangUp {conn : ℕ} {session : Session} (hconn : s.sessions conn = some session)
      (hidle : session.phase = .idle) :
      ServerStep e s (.hangUp conn) (s.goto conn session .closing)
  | advance {conn : ℕ} {session : Session} {t : ServerState}
      (hconn : s.sessions conn = some session) (hsection : SectionStep s conn session t) :
      ServerStep e s (.advance conn) t
  | actor {tableId : ℕ} {op : ActorOp} {table : Table}
      {actor : TableActor ℕ table.config.maxSeats} (htable : s.tables tableId = some table)
      (hactor : table.actor.advance (e tableId) tableId table.config op = some actor) :
      ServerStep e s (.actor tableId op) (s.setTable tableId { table with actor := actor })

theorem step_cases {e : ℕ → Engine} {s t : ServerState} {op : ServerOp}
    (h : s.step e op = some t) : ServerStep e s op t := by
  cases op with
  | login conn playerId username sessionId =>
    simp only [step] at h
    split at h
    · cases h
    · rename_i hfresh
      obtain rfl := Option.some.inj h
      exact .login playerId username sessionId (Option.not_isSome_iff_eq_none.mp hfresh)
  | receive conn msg =>
    simp only [step] at h
    split at h
    · cases h
    · split at h
      · rename_i hidle
        obtain rfl := Option.some.inj h
        refine .receive msg ‹_› hidle ?_
        split
        · exact .stop
        · exact onMessage_reads hidle msg
      · cases h
  | hangUp conn =>
    simp only [step] at h
    split at h
    · cases h
    · split at h
      · obtain rfl := Option.some.inj h
        exact .hangUp ‹_› ‹_›
      · cases h
  | advance conn =>
    simp only [step] at h
    split at h
    · cases h
    · exact .advance ‹_› (advance_cases h)
  | actor tableId op =>
    simp only [step] at h
    split at h
    · cases h
    · obtain ⟨actor, hactor, rfl⟩ := Option.map_eq_some_iff.mp h
      exact .actor ‹_› hactor

end ServerState

end VibePoker.Server
