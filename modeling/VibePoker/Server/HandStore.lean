import VibePoker.Server.Registry
import VibePoker.Server.Table

/-!
# The hand store

The tables `hands` and `hand_seats` of the database. A hand is stored in one transaction:
its header under the next id, then a row for each seat. A row of a player who is not in
`users`, or a second row of one seat, breaks a constraint, and then nothing is stored.

What it is for is an archive: a list of hands to which hands are added.

## Main definitions

* `HandStore` — the tables; `recordHand`, `fetchHand` and `countHands` of the registry
* `Archive` — the hands in the order in which they were stored
-/

namespace VibePoker.Server

/-- A row of `hands`. -/
structure HandRow where
  id : ℕ
  tableId : ℕ
  startedAt : ℕ
  endedAt : ℕ
  log : List UInt8
deriving DecidableEq, Repr

/-- A row of `hand_seats`. -/
structure HandSeatRow where
  handId : ℕ
  seat : ℕ
  userId : Option ℕ
  chipDelta : ℤ
  satOut : ℕ
deriving DecidableEq, Repr

/-- A hand as it is fetched. -/
structure HandRecord where
  id : ℕ
  tableId : ℕ
  startedAt : ℕ
  endedAt : ℕ
  log : List UInt8
  seats : List HandSeatRecord
deriving DecidableEq, Repr

/-- A hand as it is handed in. -/
structure HandSubmission where
  tableId : ℕ
  startedAt : ℕ
  endedAt : ℕ
  log : List UInt8
  seats : List HandSeatRecord
deriving DecidableEq, Repr

/-- The calls on the store; `addUser` stands for the registration of a player. -/
inductive HandCall
  | addUser (playerId : ℕ)
  | recordHand (hand : HandSubmission)
  | fetchHand (id : ℕ)
  | countHands
deriving DecidableEq, Repr

inductive HandAnswer
  | done
  | recorded (answer : Except RegistryError ℕ)
  | fetched (answer : Option HandRecord)
  | counted (n : ℕ)

/-! ## The tables -/

/-- The tables of the hands, with the ids of `users`, which they refer to. -/
structure HandStore where
  users : List ℕ
  hands : List HandRow
  handSeats : List HandSeatRow
  nextHandId : ℕ

namespace HandStore

def migrated : HandStore := ⟨[], [], [], 1⟩

/-- Insert a row of `hand_seats`, unless it breaks a constraint. -/
def insertSeat (users : List ℕ) (handId : ℕ) (rows : List HandSeatRow) (s : HandSeatRecord) :
    Except RegistryError (List HandSeatRow) :=
  if s.playerId.any fun id => id ∉ users then .error .database
  else if rows.any fun row => row.handId = handId ∧ row.seat = s.seat then .error .database
  else .ok (rows ++ [⟨handId, s.seat, s.playerId, s.chipDelta, s.satOut.toNat⟩])

/-- Store a finished hand, as a whole or not at all. -/
def recordHand (store : HandStore) (hand : HandSubmission) :
    Except RegistryError (ℕ × HandStore) := do
  let handId := store.nextHandId
  let rows ← hand.seats.foldlM (insertSeat store.users handId) store.handSeats
  return (handId,
    { store with
      hands := store.hands ++ [⟨handId, hand.tableId, hand.startedAt, hand.endedAt, hand.log⟩]
      handSeats := rows
      nextHandId := handId + 1 })

def fetchHand (store : HandStore) (id : ℕ) : Option HandRecord := do
  let header ← store.hands.find? fun row => row.id = id
  let rows := (store.handSeats.filter fun row => row.handId = id).mergeSort fun a b =>
    a.seat ≤ b.seat
  return ⟨id, header.tableId, header.startedAt, header.endedAt, header.log,
    rows.map fun row => ⟨row.seat, row.userId, row.chipDelta, row.satOut ≠ 0⟩⟩

def countHands (store : HandStore) : ℕ := store.hands.length

/-- The answer to a call, and the tables after it. -/
def answer (store : HandStore) : HandCall → HandAnswer × HandStore
  | .addUser playerId => (.done, { store with users := store.users ++ [playerId] })
  | .recordHand hand =>
    match store.recordHand hand with
    | .ok (id, store') => (.recorded (.ok id), store')
    | .error err => (.recorded (.error err), store)
  | .fetchHand id => (.fetched (store.fetchHand id), store)
  | .countHands => (.counted store.countHands, store)

def answers : HandStore → List HandCall → List HandAnswer
  | _, [] => []
  | store, call :: calls => (store.answer call).1 :: (store.answer call).2.answers calls

/-- The tables after a run of calls. -/
def after : HandStore → List HandCall → HandStore
  | store, [] => store
  | store, call :: calls => (store.answer call).2.after calls

end HandStore

/-! ## The archive -/

/-- The hands 1, 2, … that were stored. -/
structure Archive where
  users : List ℕ
  hands : List HandSubmission

namespace Archive

def empty : Archive := ⟨[], []⟩

/-- The seats of a hand in their order. -/
def sortedSeats (hand : HandSubmission) : List HandSeatRecord :=
  hand.seats.mergeSort fun a b => a.seat ≤ b.seat

/-- A hand is stored if its seats are different ones and its players are known. -/
def Accepts (a : Archive) (hand : HandSubmission) : Prop :=
  (hand.seats.map HandSeatRecord.seat).Nodup ∧
    ∀ s ∈ hand.seats, ∀ id, s.playerId = some id → id ∈ a.users

instance decidableAccepts (a : Archive) (hand : HandSubmission) : Decidable (a.Accepts hand) :=
  inferInstanceAs (Decidable (_ ∧ ∀ s ∈ hand.seats, ∀ id, s.playerId = some id → id ∈ a.users))

def fetch (a : Archive) : ℕ → Option HandRecord
  | 0 => none
  | i + 1 => a.hands[i]?.map fun hand =>
    ⟨i + 1, hand.tableId, hand.startedAt, hand.endedAt, hand.log, sortedSeats hand⟩

/-- The answer to a call, and the archive after it. -/
def answer (a : Archive) : HandCall → HandAnswer × Archive
  | .addUser playerId => (.done, { a with users := a.users ++ [playerId] })
  | .recordHand hand =>
    if a.Accepts hand then
      (.recorded (.ok (a.hands.length + 1)), { a with hands := a.hands ++ [hand] })
    else (.recorded (.error .database), a)
  | .fetchHand id => (.fetched (a.fetch id), a)
  | .countHands => (.counted a.hands.length, a)

def answers : Archive → List HandCall → List HandAnswer
  | _, [] => []
  | a, call :: calls => (a.answer call).1 :: (a.answer call).2.answers calls

def after : Archive → List HandCall → Archive
  | a, [] => a
  | a, call :: calls => (a.answer call).2.after calls

end Archive

end VibePoker.Server
