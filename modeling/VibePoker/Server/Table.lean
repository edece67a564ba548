import VibePoker.Game.Checked
import VibePoker.Net.Protocol

/-!
# Tables

The seat layout of a table and the operations that change it, each as the code
does it under the table's lock: `sit`, `leave`, `force_leave`,
`reconnect_player`, and the four steps of the table actor (quorum, snapshot,
hand, result). What a seat's link leads to is a parameter `κ` of the table.

## Main definitions

* `TableInner` — the seats and the counters behind the lock
* `TableActor` — a table with the position of its actor's loop
* `TableActor.step` — one operation, by a session or by the actor
-/

namespace VibePoker.Server

open VibePoker.Core VibePoker.CS VibePoker.Game VibePoker.Net

/-- Static configuration of a table. -/
structure TableConfig where
  maxSeats : ℕ
  minSeats : ℕ
  bigBlind : ℕ
  actionDeadlineMs : ℕ
deriving DecidableEq, Repr

/-- The smallest buy-in: ten big blinds, as far as a `u32` holds them. -/
def TableConfig.minBuyIn (config : TableConfig) : ℕ := config.bigBlind * 10 % 2 ^ 32

/-- One occupied seat. -/
structure Seat (κ : Type*) where
  playerId : ℕ
  username : String
  stack : ℕ
  link : κ
  leavePending : Bool

/-- The state of a table behind its lock. -/
structure TableInner (κ : Type*) (m : ℕ) where
  seats : Fin m → Option (Seat κ)
  button : ℕ
  nextHandId : ℕ
  handInProgress : Bool

/-- A seat that takes part in a hand. -/
structure SnapshotPlayer (κ : Type*) (m : ℕ) where
  tableSeat : Fin m
  stack : ℕ
  link : κ

/-- The seats taking part in one hand; `dealer` is an index into `players`. -/
structure RunningSnapshot (κ : Type*) (m : ℕ) where
  handId : ℕ
  players : List (SnapshotPlayer κ m)
  dealer : ℕ

namespace TableInner

variable {κ : Type*} {m : ℕ}

def new : TableInner κ m := ⟨fun _ => none, 0, 1, false⟩

def setSeat (inner : TableInner κ m) (i : Fin m) (seat : Option (Seat κ)) : TableInner κ m :=
  { inner with seats := Function.update inner.seats i seat }

/-- The first seat of a player. -/
def seatOf (inner : TableInner κ m) (playerId : ℕ) : Option (Fin m) :=
  (List.finRange m).find? fun i => (inner.seats i).any fun seat => seat.playerId = playerId

/-- How many seats are occupied. -/
def seated (inner : TableInner κ m) : ℕ :=
  ((List.finRange m).filter fun i => (inner.seats i).isSome).length

def seatInfos (inner : TableInner κ m) : List SeatInfo :=
  (List.finRange m).filterMap fun i =>
    (inner.seats i).map fun seat => ⟨i, seat.playerId, seat.username, seat.stack⟩

/-! ## Operations of the sessions -/

/-- Place a player at the first free seat, or say why not. -/
def sit (config : TableConfig) (inner : TableInner κ m) (playerId : ℕ) (username : String)
    (link : κ) (buyIn : ℕ) : Except String (Fin m × TableInner κ m) :=
  if buyIn < config.minBuyIn then
    .error ("buy-in must be at least " ++ toString config.minBuyIn)
  else if (inner.seatOf playerId).isSome then .error "already seated at this table"
  else
    match (List.finRange m).find? fun i => (inner.seats i).isNone with
    | none => .error "table full"
    | some i => .ok (i, inner.setSeat i (some ⟨playerId, username, buyIn, link, false⟩))

/-- Vacate a seat now, or at the end of the hand that is in progress. -/
def release (inner : TableInner κ m) (i : Fin m) : TableInner κ m :=
  if inner.handInProgress then
    inner.setSeat i ((inner.seats i).map fun seat => { seat with leavePending := true })
  else inner.setSeat i none

def leave (inner : TableInner κ m) (playerId : ℕ) : Except String (TableInner κ m) :=
  match inner.seatOf playerId with
  | none => .error "not seated at this table"
  | some i => .ok (inner.release i)

/-- `leave`, but only if the seat is still bound to session `sessionId`, when one
is given. -/
def forceLeave (sessionOf : κ → ℤ) (inner : TableInner κ m) (playerId : ℕ)
    (sessionId : Option ℤ) : TableInner κ m :=
  match inner.seatOf playerId with
  | none => inner
  | some i =>
    match inner.seats i, sessionId with
    -- a seat that a newer session has taken over is kept
    | some seat, some sid => if sessionOf seat.link ≠ sid then inner else inner.release i
    | _, _ => inner.release i

/-- Splice another connection into the seat of a player. -/
def reconnectPlayer (inner : TableInner κ m) (playerId : ℕ)
    (splice : Fin m → List SeatInfo → κ → κ) : Option (Fin m × TableInner κ m) :=
  (inner.seatOf playerId).map fun i =>
    (i, inner.setSeat i ((inner.seats i).map fun seat =>
      { seat with link := splice i inner.seatInfos seat.link }))

/-! ## Operations of the actor -/

/-- One pass of `wait_for_quorum`: claim the table for a hand if enough seats are
occupied. -/
def tryQuorum (config : TableConfig) (inner : TableInner κ m) : Option (TableInner κ m) :=
  if inner.handInProgress = false ∧ config.minSeats ≤ inner.seated then
    some { inner with handInProgress := true }
  else none

/-- The seats that can post the big blind, in order. -/
def eligible (config : TableConfig) (inner : TableInner κ m) : List (SnapshotPlayer κ m) :=
  (List.finRange m).filterMap fun i =>
    (inner.seats i).bind fun seat =>
      if seat.stack < config.bigBlind then none else some ⟨i, seat.stack, seat.link⟩

/-- Freeze the seats that play the next hand, and use up its id. -/
def takeRunningSnapshot (config : TableConfig) (inner : TableInner κ m) :
    RunningSnapshot κ m × TableInner κ m :=
  let players := inner.eligible config
  (⟨inner.nextHandId, players,
      -- the first of them at or after the button, or the first of all
      (players.findIdx? fun p => inner.button ≤ p.tableSeat).getD 0⟩,
    { inner with nextHandId := inner.nextHandId + 1 })

/-- The next occupied seat, after `start` and once around. -/
def nextOccupiedSeat (seats : Fin m → Option (Seat κ)) (start : ℕ) : Option ℕ :=
  (List.range m).findSome? fun offset =>
    let i := (start + (offset + 1)) % m
    if h : i < m then if (seats ⟨i, h⟩).isSome then some i else none
    else none

/-- Add the outcome of a hand to the stack of its seat. -/
def applyOutcome (seats : Fin m → Option (Seat κ)) (o : SeatOutcome) : Fin m → Option (Seat κ) :=
  fun i =>
    if i = o.seat then
      (seats i).map fun seat => { seat with stack := (seat.stack + o.chipDelta).toNat }
    else seats i

/-- The seats with the results of a hand added to their stacks. -/
def applyDeltas (seats : Fin m → Option (Seat κ)) (outcomes : List SeatOutcome) :
    Fin m → Option (Seat κ) :=
  outcomes.foldl applyOutcome seats

/-- `applyOutcome` with a check that the new stack is neither clamped nor cut off. -/
def applyOutcomeChecked (seats : Fin m → Option (Seat κ)) (o : SeatOutcome) :
    Option (Fin m → Option (Seat κ)) :=
  collect fun i =>
    if i = o.seat then
      match seats i with
      | none => some none
      | some seat => (wordOfInt 32 (seat.stack + o.chipDelta)).map fun stack =>
          some { seat with stack := stack }
    else some (seats i)

def applyDeltasChecked (seats : Fin m → Option (Seat κ)) (outcomes : List SeatOutcome) :
    Option (Fin m → Option (Seat κ)) :=
  outcomes.foldlM applyOutcomeChecked seats

/-- Keep a seat unless it is leaving or busted. -/
def keep (seat : Seat κ) : Option (Seat κ) :=
  if seat.leavePending ∨ seat.stack = 0 then none else some seat

def applyHandResult (inner : TableInner κ m) (result : HandResult) : TableInner κ m :=
  let seats := fun i => (applyDeltas inner.seats result.seats i).bind keep
  { inner with
    seats := seats
    -- the button moves over the seats that are left, whether or not they can play
    button := (nextOccupiedSeat seats inner.button).getD inner.button
    handInProgress := false }

end TableInner

/-! ## Hands -/

/-- The seed of a hand's deck, in 64-bit arithmetic. -/
def deriveSeed (tableId handId : ℕ) : ℕ :=
  let x := (tableId * 0x9E3779B97F4A7C15) % 2 ^ 64
  let x := x ^^^ (handId * 0xBF58476D1CE4E5B9) % 2 ^ 64
  let x := x ^^^ (x >>> 27)
  (x * 0x94D049BB133111EB) % 2 ^ 64

/-- Rename the engine's seats to the table's. -/
def rWithTableSeats {m : ℕ} (r : HandResult) (tableSeats : List (Fin m)) : HandResult :=
  { r with
    seats := r.seats.map fun o =>
      match tableSeats[o.seat]? with
      | some i => { o with seat := i }
      | none => o }

/-- One row of the persisted seats of a hand. -/
structure HandSeatRecord where
  seat : ℕ
  playerId : Option ℕ
  chipDelta : ℤ
  satOut : Bool
deriving DecidableEq, Repr

/-- The rows that `persist_hand` writes; `playerIds` are the players of the snapshot. -/
def handSeatRecords (result : HandResult) (playerIds : List ℕ) : List HandSeatRecord :=
  result.seats.zipIdx.map fun row =>
    ⟨row.1.seat, playerIds[row.2]?, row.1.chipDelta, row.1.satOut⟩

/-- Play a hand with the seats of a snapshot; a panic counts as a hand without
result, and a hand that waits for an answer has none yet. -/
def runOneHand {κ : Type*} {m : ℕ} (e : Engine) (tableId : ℕ) (order : Fin 52 → Card)
    (snapshot : RunningSnapshot κ m) (answers : List Action) : Option HandResult :=
  match (runHand e snapshot.handId (deriveSeed tableId snapshot.handId) order
      (snapshot.players.map SnapshotPlayer.stack) snapshot.dealer none answers).2 with
  | .finished result _ _ _ =>
    some (rWithTableSeats result (snapshot.players.map SnapshotPlayer.tableSeat))
  | .panicked => some ⟨snapshot.handId, [], []⟩
  | .waiting | .spinning => none

/-! ## The table actor -/

/-- Where the loop of `run_table` is. -/
inductive ActorPhase (κ : Type*) (m : ℕ)
  /-- Waiting for a quorum, or pausing after a hand. -/
  | waiting
  /-- The quorum was reached and the snapshot is still to be taken. -/
  | ready
  /-- The snapshot came out too small. -/
  | lost
  | playing (snapshot : RunningSnapshot κ m)

structure TableActor (κ : Type*) (m : ℕ) where
  inner : TableInner κ m
  phase : ActorPhase κ m

/-- The steps of the actor. -/
inductive ActorOp
  | quorum
  | snapshot
  | resume
  | finish (order : Fin 52 → Card) (answers : List Action)

/-- One operation on a table: those of the sessions, and the steps of the actor. -/
inductive TableOp (κ : Type*)
  | sit (playerId : ℕ) (username : String) (link : κ) (buyIn : ℕ)
  | leave (playerId : ℕ)
  | forceLeave (playerId : ℕ) (sessionId : Option ℤ)
  | reconnect (playerId : ℕ) (link : κ)
  | actor (op : ActorOp)

namespace TableActor

variable {κ : Type*} {m : ℕ}

def new : TableActor κ m := ⟨.new, .waiting⟩

/-- One step of `run_table`; `none` if the loop is not there. -/
def advance (e : Engine) (tableId : ℕ) (config : TableConfig) (a : TableActor κ m) :
    ActorOp → Option (TableActor κ m)
  | .quorum =>
    match a.phase with
    | .waiting => (a.inner.tryQuorum config).map fun inner => ⟨inner, .ready⟩
    | _ => none
  | .snapshot =>
    match a.phase with
    | .ready =>
      let (snapshot, inner) := a.inner.takeRunningSnapshot config
      some ⟨inner, if snapshot.players.length < config.minSeats then .lost else .playing snapshot⟩
    | _ => none
  | .resume =>
    match a.phase with
    | .lost => some ⟨{ a.inner with handInProgress := false }, .waiting⟩
    | _ => none
  | .finish order answers =>
    match a.phase with
    | .playing snapshot =>
      (runOneHand e tableId order snapshot answers).map fun result =>
        ⟨a.inner.applyHandResult result, .waiting⟩
    | _ => none

/-- One operation; a request that is refused changes nothing. -/
def step (e : Engine) (sessionOf : κ → ℤ) (tableId : ℕ) (config : TableConfig)
    (a : TableActor κ m) : TableOp κ → Option (TableActor κ m)
  | .sit playerId username link buyIn =>
    match a.inner.sit config playerId username link buyIn with
    | .ok (_, inner) => some { a with inner := inner }
    | .error _ => some a
  | .leave playerId =>
    match a.inner.leave playerId with
    | .ok inner => some { a with inner := inner }
    | .error _ => some a
  | .forceLeave playerId sessionId =>
    some { a with inner := a.inner.forceLeave sessionOf playerId sessionId }
  | .reconnect playerId link =>
    match a.inner.reconnectPlayer playerId fun _ _ _ => link with
    | some (_, inner) => some { a with inner := inner }
    | none => some a
  | .actor op => a.advance e tableId config op

end TableActor

end VibePoker.Server
