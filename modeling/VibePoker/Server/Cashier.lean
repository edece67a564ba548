import Mathlib.Algebra.BigOperators.Fin
import VibePoker.Server.Seats

/-!
# The chips of a table

Chips come to a table with a buy-in, move between its seats when a hand is settled, and go
with the seats that are vacated. A cashier follows a table and writes this down.

## Main definitions

* `TableMove` — an operation on a table, or a panic of the task that plays its hand
* `Cashier` — a table with its buy-ins, what was taken away, and who sat where when the
  hand began
* `deltaAt` — what the engine reports for the player of a seat

## Main results

* `applyDeltas_of_nodup` — each reported delta is added to one seat
* `tableStacks_applyDeltas` — together they change the chips at the table by their sum
-/

namespace VibePoker.Server

open VibePoker.Core VibePoker.Game VibePoker.Net

variable {κ : Type*} {m : ℕ}

/-! ## Counting chips -/

/-- The chips at a seat. -/
def chipsAt (seats : Fin m → Option (Seat κ)) (i : Fin m) : ℕ := (seats i).elim 0 Seat.stack

/-- The chips at the table. -/
def tableStacks (seats : Fin m → Option (Seat κ)) : ℕ := ∑ i, chipsAt seats i

/-- The chips of the seats that are vacated in `kept`. -/
def vacated (seats kept : Fin m → Option (Seat κ)) : ℕ :=
  ∑ i, if (kept i).isNone then chipsAt seats i else 0

theorem tableStacks_of_eq {seats seats' : Fin m → Option (Seat κ)} {i : Fin m}
    (h : ∀ j, j ≠ i → seats' j = seats j) :
    tableStacks seats' + chipsAt seats i = tableStacks seats + chipsAt seats' i := by
  have hrest : ∑ j ∈ Finset.univ.erase i, chipsAt seats' j =
      ∑ j ∈ Finset.univ.erase i, chipsAt seats j :=
    Finset.sum_congr rfl fun j hj => by rw [chipsAt, h j (Finset.ne_of_mem_erase hj), chipsAt]
  rw [tableStacks, tableStacks, ← Finset.add_sum_erase _ _ (Finset.mem_univ i),
    ← Finset.add_sum_erase _ (chipsAt seats) (Finset.mem_univ i), hrest]
  omega

/-- What is kept and what is vacated is what there was. -/
theorem tableStacks_add_vacated {seats kept : Fin m → Option (Seat κ)}
    (h : ∀ i seat, kept i = some seat → chipsAt seats i = seat.stack) :
    tableStacks kept + vacated seats kept = tableStacks seats := by
  rw [tableStacks, vacated, tableStacks, ← Finset.sum_add_distrib]
  refine Finset.sum_congr rfl fun i _ => ?_
  cases hkept : kept i with
  | none => simp [chipsAt, hkept]
  | some seat => simp [chipsAt, hkept, ← h i seat hkept]

@[simp] theorem vacated_self (seats : Fin m → Option (Seat κ)) : vacated seats seats = 0 := by
  refine Finset.sum_eq_zero fun i _ => ?_
  cases hi : seats i <;> simp [chipsAt, hi]

/-! ## Settling a hand -/

/-- The result of the hand of a snapshot, with the engine's seats; a panic counts as a hand
without outcomes. -/
def handResult? (e : Engine) (tableId : ℕ) (order : Fin 52 → Card) (snapshot : RunningSnapshot κ m)
    (answers : List Action) : Option HandResult :=
  match (runHand e snapshot.handId (deriveSeed tableId snapshot.handId) order
      (snapshot.players.map SnapshotPlayer.stack) snapshot.dealer none answers).2 with
  | .finished result _ _ _ => some result
  | .panicked => some ⟨snapshot.handId, [], []⟩
  | .waiting | .spinning => none

theorem runOneHand_eq (e : Engine) (tableId : ℕ) (order : Fin 52 → Card)
    (snapshot : RunningSnapshot κ m) (answers : List Action) :
    runOneHand e tableId order snapshot answers =
      (handResult? e tableId order snapshot answers).map fun r =>
        rWithTableSeats r (snapshot.players.map SnapshotPlayer.tableSeat) := by
  rw [runOneHand, handResult?]
  generalize (runHand e snapshot.handId _ order _ snapshot.dealer none answers).2 = outcome
  cases outcome <;> rfl

/-- What the engine reports for the player at a table seat. -/
def deltaAt (snapshot : RunningSnapshot κ m) (r : HandResult) (i : Fin m) : ℤ :=
  ((r.seats.find? fun o => (snapshot.players[o.seat]?).any fun p => p.tableSeat = i).map
    SeatOutcome.chipDelta).getD 0

/-! ## Moves of a table -/

/-- An operation on a table, or a panic of the task that plays the hand. -/
inductive TableMove (κ : Type*)
  | op (op : TableOp κ)
  | panic

namespace TableActor

/-- One move; `none` if it is not possible. -/
def move (e : Engine) (sessionOf : κ → ℤ) (tableId : ℕ) (config : TableConfig)
    (a : TableActor κ m) : TableMove κ → Option (TableActor κ m)
  | .op op => a.step e sessionOf tableId config op
  | .panic =>
    match a.phase with
    | .playing snapshot => some ⟨a.inner.applyHandResult ⟨snapshot.handId, [], []⟩, .waiting⟩
    | _ => none

/-- The hand that a move settles, with its result. -/
def settles (e : Engine) (tableId : ℕ) (a : TableActor κ m) :
    TableMove κ → Option (RunningSnapshot κ m × HandResult)
  | .op (.actor (.finish order answers)) =>
    match a.phase with
    | .playing snapshot =>
      (handResult? e tableId order snapshot answers).map fun r => (snapshot, r)
    | _ => none
  | .panic =>
    match a.phase with
    | .playing snapshot => some (snapshot, ⟨snapshot.handId, [], []⟩)
    | _ => none
  | _ => none

/-- The buy-in that a move brings to the table. -/
def buyIn (config : TableConfig) (a : TableActor κ m) : TableMove κ → ℕ
  | .op (.sit playerId username link buyIn) =>
    match a.inner.sit config playerId username link buyIn with
    | .ok _ => buyIn
    | .error _ => 0
  | _ => 0

/-- The seats from which a move vacates some: those of the table, with the hand settled. -/
def settledSeats (e : Engine) (tableId : ℕ) (a : TableActor κ m) (move : TableMove κ) :
    Fin m → Option (Seat κ) :=
  match a.settles e tableId move with
  | some (snapshot, r) => TableInner.applyDeltas a.inner.seats
      (rWithTableSeats r (snapshot.players.map SnapshotPlayer.tableSeat)).seats
  | none => a.inner.seats

/-- Who sat where when the last snapshot was taken. -/
def seatingAfter (a : TableActor κ m) (seating : Fin m → Option ℕ) :
    TableMove κ → Fin m → Option ℕ
  | .op (.actor .snapshot) => fun i => (a.inner.seats i).map Seat.playerId
  | _ => seating

end TableActor

/-- A table with all buy-ins so far, the stacks of all seats vacated so far, and who sat
where when the last snapshot was taken. -/
structure Cashier (κ : Type*) (m : ℕ) where
  actor : TableActor κ m
  boughtIn : ℕ
  removed : ℕ
  seating : Fin m → Option ℕ

namespace Cashier

def new : Cashier κ m := ⟨.new, 0, 0, fun _ => none⟩

/-- Write a move down. -/
def step (e : Engine) (sessionOf : κ → ℤ) (tableId : ℕ) (config : TableConfig)
    (s : Cashier κ m) (move : TableMove κ) : Option (Cashier κ m) :=
  (s.actor.move e sessionOf tableId config move).map fun a =>
    { actor := a
      boughtIn := s.boughtIn + s.actor.buyIn config move
      removed := s.removed + vacated (s.actor.settledSeats e tableId move) a.inner.seats
      seating := s.actor.seatingAfter s.seating move }

end Cashier

/-! ## Adding the deltas -/

namespace TableInner

variable {seats : Fin m → Option (Seat κ)} {outcomes : List SeatOutcome} {i : Fin m}

theorem applyDeltas_cons (o : SeatOutcome) :
    applyDeltas seats (o :: outcomes) = applyDeltas (applyOutcome seats o) outcomes := rfl

theorem applyOutcome_of_ne {o : SeatOutcome} (h : o.seat ≠ i) :
    applyOutcome seats o i = seats i := if_neg (Ne.symm h)

theorem applyOutcome_self {o : SeatOutcome} (h : o.seat = i) :
    applyOutcome seats o i =
      (seats i).map fun seat => { seat with stack := (seat.stack + o.chipDelta).toNat } :=
  if_pos h.symm

/-- Seats without an outcome stay as they are. -/
theorem applyDeltas_of_notMem (h : ∀ o ∈ outcomes, o.seat ≠ i) :
    applyDeltas seats outcomes i = seats i := by
  induction outcomes generalizing seats with
  | nil => rfl
  | cons o outcomes ih =>
    rw [applyDeltas_cons, ih fun o' ho' => h o' (List.mem_cons_of_mem _ ho'),
      applyOutcome_of_ne (h o List.mem_cons_self)]

/-- A seat with one outcome gets its delta. -/
theorem applyDeltas_of_nodup (hnodup : (outcomes.map SeatOutcome.seat).Nodup) {o : SeatOutcome}
    (ho : o ∈ outcomes) (hi : o.seat = i) :
    applyDeltas seats outcomes i =
      (seats i).map fun seat => { seat with stack := (seat.stack + o.chipDelta).toNat } := by
  induction outcomes generalizing seats with
  | nil => cases ho
  | cons first outcomes ih =>
    obtain ⟨hfirst, hrest⟩ := List.nodup_cons.mp hnodup
    have hother : ∀ o' ∈ outcomes, o'.seat ≠ first.seat := fun o' ho' heq =>
      hfirst (List.mem_map.mpr ⟨o', ho', heq⟩)
    rw [applyDeltas_cons]
    rcases List.mem_cons.mp ho with rfl | ho
    · rw [applyDeltas_of_notMem fun o' ho' => hi ▸ hother o' ho', applyOutcome_self hi]
    · rw [ih hrest ho, applyOutcome_of_ne fun heq => hother o ho (hi.trans heq.symm)]

/-- The deltas that no seat is clamped by change the chips at the table by their sum. -/
theorem tableStacks_applyDeltas (hnodup : (outcomes.map SeatOutcome.seat).Nodup)
    (hpays : ∀ o ∈ outcomes, ∃ i : Fin m, ∃ seat, o.seat = i ∧ seats i = some seat ∧
      0 ≤ (seat.stack : ℤ) + o.chipDelta) :
    (tableStacks (applyDeltas seats outcomes) : ℤ) =
      tableStacks seats + (outcomes.map SeatOutcome.chipDelta).sum := by
  induction outcomes generalizing seats with
  | nil => simp [applyDeltas]
  | cons o outcomes ih =>
    obtain ⟨hfirst, hrest⟩ := List.nodup_cons.mp hnodup
    obtain ⟨i, seat, hi, hseat, hpay⟩ := hpays o List.mem_cons_self
    have hone : (tableStacks (applyOutcome seats o) : ℤ) = tableStacks seats + o.chipDelta := by
      have hsum : tableStacks (applyOutcome seats o) + chipsAt seats i =
          tableStacks seats + chipsAt (applyOutcome seats o) i :=
        tableStacks_of_eq fun j hj => applyOutcome_of_ne fun heq => hj (Fin.ext (heq.symm.trans hi))
      rw [chipsAt, chipsAt, applyOutcome_self hi, hseat] at hsum
      simp only [Option.map_some, Option.elim_some] at hsum
      omega
    rw [applyDeltas_cons, ih hrest, hone, List.map_cons, List.sum_cons, add_assoc]
    intro o' ho'
    obtain ⟨j, other, hj, hother, hpay'⟩ := hpays o' (List.mem_cons_of_mem _ ho')
    refine ⟨j, other, hj, ?_, hpay'⟩
    rw [applyOutcome_of_ne, hother]
    exact fun heq => hfirst (List.mem_map.mpr ⟨o', ho', hj.trans heq.symm⟩)

end TableInner

end VibePoker.Server
