import VibePoker.Game.HandLog
import VibePoker.Server.Cashier
import VibePoker.Server.HandStore

/-!
# The hand history of a table

The actor of a table settles a hand first and stores it then, with the table's lock
released in between, so that players come and go before the hand is in the store. The
same store is written to by the other tables, and by the registration of players.

A till follows a table and the store, and writes down for each player what it has bought
in for and what it has taken away.

## Main definitions

* `SettledHand` — what `persist_hand` is given
* `Till` — a table, the store, and the chips that each player brought and took
* `Till.step` — a move of the table, the storing of its hand, or a write of somebody else
-/

namespace VibePoker.Server

open VibePoker.Core VibePoker.Game VibePoker.Net

variable {κ : Type*} {m : ℕ}

/-! ## The chips of a player -/

/-- The chips of player `p` at a seat. -/
def chipsOf (p : ℕ) (seat : Seat κ) : ℕ := if seat.playerId = p then seat.stack else 0

/-- The chips that player `p` has at the table. -/
def heldBy (p : ℕ) (seats : Fin m → Option (Seat κ)) : ℕ := ∑ i, (seats i).elim 0 (chipsOf p)

/-- The chips of player `p` at the seats that are vacated in `kept`. -/
def takenBy (p : ℕ) (seats kept : Fin m → Option (Seat κ)) : ℕ :=
  ∑ i, if (kept i).isNone then (seats i).elim 0 (chipsOf p) else 0

/-! ## The hands of a table -/

namespace HandStore

/-- The hands of a table, fetched one after the other. -/
def handsOf (store : HandStore) (tableId : ℕ) : List HandRecord :=
  ((List.range store.countHands).filterMap fun i => store.fetchHand (i + 1)).filter fun hand =>
    hand.tableId = tableId

end HandStore

/-- What player `p` won in a hand, by its rows. -/
def wonBy (p : ℕ) (rows : List HandSeatRecord) : ℤ :=
  ((rows.filter fun row => row.playerId = some p).map HandSeatRecord.chipDelta).sum

/-- A hand that is settled: its result with the seats of the table, the players of its
snapshot, and what its sink recorded. -/
structure SettledHand where
  result : HandResult
  playerIds : List ℕ
  log : List EngineEvent

namespace SettledHand

def rows (hand : SettledHand) : List HandSeatRecord :=
  handSeatRecords hand.result hand.playerIds

/-- What `persist_hand` hands in; `frames` are the bytes of a log. -/
def played (frames : List EngineEvent → List UInt8) (tableId startedAt endedAt : ℕ)
    (hand : SettledHand) : HandSubmission :=
  ⟨tableId, startedAt, endedAt, frames hand.log, hand.rows⟩

end SettledHand

namespace TableActor

/-- What the sink has recorded of the hand that a move settles. A panic loses it. -/
def recorded (e : Engine) (tableId : ℕ) (snapshot : RunningSnapshot κ m) :
    TableMove κ → List EngineEvent
  | .op (.actor (.finish order answers)) =>
    match runHand e snapshot.handId (deriveSeed tableId snapshot.handId) order
        (snapshot.players.map SnapshotPlayer.stack) snapshot.dealer none answers with
    | (outputs, .finished ..) => eventsOf outputs
    | _ => []
  | _ => []

/-- The hand that a move leaves to be stored. -/
def leftToStore (e : Engine) (playerOf : κ → ℕ) (tableId : ℕ) (a : TableActor κ m)
    (move : TableMove κ) : Option SettledHand :=
  (a.settles e tableId move).map fun (snapshot, r) =>
    ⟨rWithTableSeats r (snapshot.players.map SnapshotPlayer.tableSeat),
      snapshot.players.map fun p => playerOf p.link, recorded e tableId snapshot move⟩

/-- The chips that a move brings for player `p`. -/
def boughtBy (config : TableConfig) (a : TableActor κ m) (p : ℕ) (move : TableMove κ) : ℕ :=
  match move with
  | .op (.sit playerId _ _ _) => if playerId = p then a.buyIn config move else 0
  | _ => 0

end TableActor

/-! ## Tills -/

/-- A table with the store; `settled` are the hands it has settled, and `unsaved` is the one
of them that its actor is still to store. -/
structure Till (κ : Type*) (m : ℕ) where
  cashier : Cashier κ m
  store : HandStore
  unsaved : Option SettledHand
  settled : List SettledHand
  boughtIn : ℕ → ℕ
  taken : ℕ → ℕ

/-- A move of the table, the storing of its last hand, or a call of another table or of a
session on the store. -/
inductive TillMove (κ : Type*)
  | table (move : TableMove κ)
  | persist (startedAt endedAt : ℕ)
  | elsewhere (call : HandCall)

/-- The actor itself makes this move. -/
def TableMove.byActor : TableMove κ → Bool
  | .op (.actor _) | .panic => true
  | _ => false

namespace Till

/-- A new table, with a store that may have hands already. -/
def new (store : HandStore) : Till κ m := ⟨.new, store, none, [], fun _ => 0, fun _ => 0⟩

/-- A move of the table; its actor stores a hand before it goes on. -/
def moveTable (e : Engine) (playerOf : κ → ℕ) (sessionOf : κ → ℤ) (tableId : ℕ)
    (config : TableConfig) (s : Till κ m) (move : TableMove κ) : Option (Till κ m) :=
  let a := s.cashier.actor
  if s.unsaved.isSome ∧ move.byActor then none
  else (s.cashier.step e sessionOf tableId config move).map fun cashier =>
    { s with
      cashier := cashier
      unsaved := s.unsaved.or (a.leftToStore e playerOf tableId move)
      settled := s.settled ++ (a.leftToStore e playerOf tableId move).toList
      boughtIn := fun p => s.boughtIn p + a.boughtBy config p move
      taken := fun p =>
        s.taken p + takenBy p (a.settledSeats e tableId move) cashier.actor.inner.seats }

/-- Store the last hand; if that fails, there is a warning, and the hand is given up. -/
def persistHand (frames : List EngineEvent → List UInt8) (tableId startedAt endedAt : ℕ)
    (s : Till κ m) : Option (Till κ m) :=
  s.unsaved.map fun hand =>
    { s with
      unsaved := none
      store := match s.store.recordHand (hand.played frames tableId startedAt endedAt) with
        | .ok (_, store) => store
        | .error _ => s.store }

def step (e : Engine) (playerOf : κ → ℕ) (sessionOf : κ → ℤ)
    (frames : List EngineEvent → List UInt8) (tableId : ℕ) (config : TableConfig)
    (s : Till κ m) : TillMove κ → Option (Till κ m)
  | .table move => s.moveTable e playerOf sessionOf tableId config move
  | .persist startedAt endedAt => s.persistHand frames tableId startedAt endedAt
  | .elsewhere call => some { s with store := (s.store.answer call).2 }

end Till

end VibePoker.Server
