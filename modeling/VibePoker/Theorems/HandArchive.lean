import VibePoker.Server.HandStore

/-!
# The hand store is an archive

The tables answer every run of calls as the list of the hands stored so far does: a hand
gets the next number, if it is accepted, and is found under it from then on as it was
handed in, with its seats in order. A hand that is refused leaves no trace, whichever of
its rows broke the constraint.

## Main definitions

* `HandStore.Holds` — the tables hold the hands of an archive

## Main results

* `foldlM_insertSeat` — the rows of a hand are inserted all, or not at all
* `hand_store_archives`
-/

namespace VibePoker.Server

namespace HandStore

/-! ## The rows of a hand -/

/-- The row of a seat. -/
def seatRow (handId : ℕ) (s : HandSeatRecord) : HandSeatRow :=
  ⟨handId, s.seat, s.playerId, s.chipDelta, s.satOut.toNat⟩

/-- No row of the hand has the seat of one of these. -/
def Fresh (rows : List HandSeatRow) (handId : ℕ) (seats : List HandSeatRecord) : Prop :=
  ∀ s ∈ seats, ∀ row ∈ rows, row.handId = handId → row.seat ≠ s.seat

theorem insertSeat_of_unknown {users : List ℕ} {handId : ℕ} {rows : List HandSeatRow}
    {s : HandSeatRecord} {id : ℕ} (hid : s.playerId = some id) (hunknown : id ∉ users) :
    insertSeat users handId rows s = .error .database := by
  simp [insertSeat, hid, hunknown]

theorem insertSeat_of_taken {users : List ℕ} {handId : ℕ} {rows : List HandSeatRow}
    {s : HandSeatRecord} {row : HandSeatRow} (hrow : row ∈ rows) (hhand : row.handId = handId)
    (hseat : row.seat = s.seat) : insertSeat users handId rows s = .error .database := by
  have htaken : (rows.any fun row => row.handId = handId ∧ row.seat = s.seat) = true :=
    List.any_eq_true.mpr ⟨row, hrow, decide_eq_true ⟨hhand, hseat⟩⟩
  rw [insertSeat, htaken]
  simp

theorem insertSeat_of_fresh {users : List ℕ} {handId : ℕ} {rows : List HandSeatRow}
    {s : HandSeatRecord} (hknown : ∀ id, s.playerId = some id → id ∈ users)
    (hfresh : ∀ row ∈ rows, row.handId = handId → row.seat ≠ s.seat) :
    insertSeat users handId rows s = .ok (rows ++ [seatRow handId s]) := by
  have hplayer : (s.playerId.any fun id => id ∉ users) = false := by
    cases hid : s.playerId with
    | none => rfl
    | some id => simpa using hknown id hid
  have hseat : (rows.any fun row => row.handId = handId ∧ row.seat = s.seat) = false := by
    simpa using hfresh
  rw [insertSeat, hplayer, hseat]
  rfl

/-- The rows of a hand are inserted one by one, unless a player is unknown or a seat there
twice. -/
theorem foldlM_insertSeat (users : List ℕ) (handId : ℕ) (seats : List HandSeatRecord)
    (rows : List HandSeatRow) :
    (((∀ s ∈ seats, ∀ id, s.playerId = some id → id ∈ users) ∧
        (seats.map HandSeatRecord.seat).Nodup ∧ Fresh rows handId seats) →
      seats.foldlM (insertSeat users handId) rows = .ok (rows ++ seats.map (seatRow handId))) ∧
    (¬ ((∀ s ∈ seats, ∀ id, s.playerId = some id → id ∈ users) ∧
        (seats.map HandSeatRecord.seat).Nodup ∧ Fresh rows handId seats) →
      seats.foldlM (insertSeat users handId) rows = .error .database) := by
  induction seats generalizing rows with
  | nil =>
    refine ⟨fun _ => by simp [pure, Except.pure], fun h => absurd ⟨?_, ?_, ?_⟩ h⟩
    · simp
    · exact List.nodup_nil
    · intro s hs
      cases hs
  | cons s seats ih =>
    rw [List.foldlM_cons]
    by_cases hknown : ∀ id, s.playerId = some id → id ∈ users
    swap
    · push Not at hknown
      obtain ⟨id, hid, hunknown⟩ := hknown
      rw [insertSeat_of_unknown hid hunknown]
      exact ⟨fun h => absurd (h.1 s List.mem_cons_self id hid) hunknown, fun _ => rfl⟩
    by_cases hfresh : ∀ row ∈ rows, row.handId = handId → row.seat ≠ s.seat
    swap
    · push Not at hfresh
      obtain ⟨row, hrow, hhand, hseat⟩ := hfresh
      rw [insertSeat_of_taken hrow hhand hseat]
      exact ⟨fun h => absurd hseat (h.2.2 s List.mem_cons_self row hrow hhand), fun _ => rfl⟩
    rw [insertSeat_of_fresh hknown hfresh]
    obtain ⟨hok, herror⟩ := ih (rows ++ [seatRow handId s])
    -- the row of this seat is one that the others must not have
    have hothers : Fresh (rows ++ [seatRow handId s]) handId seats ↔
        Fresh rows handId seats ∧ s.seat ∉ seats.map HandSeatRecord.seat := by
      constructor
      · refine fun h => ⟨fun s' hs' row hrow => h s' hs' row (List.mem_append_left _ hrow), ?_⟩
        intro hmem
        obtain ⟨s', hs', hseat⟩ := List.mem_map.mp hmem
        exact h s' hs' (seatRow handId s) (by simp) rfl hseat.symm
      · rintro ⟨hold, hnew⟩ s' hs' row hrow hhand
        rcases List.mem_append.mp hrow with hrow | hrow
        · exact hold s' hs' row hrow hhand
        · obtain rfl := List.mem_singleton.mp hrow
          exact fun hseat => hnew (List.mem_map.mpr ⟨s', hs', hseat.symm⟩)
    have hall : ((∀ s' ∈ s :: seats, ∀ id, s'.playerId = some id → id ∈ users) ∧
        ((s :: seats).map HandSeatRecord.seat).Nodup ∧ Fresh rows handId (s :: seats)) ↔
        ((∀ s' ∈ seats, ∀ id, s'.playerId = some id → id ∈ users) ∧
          (seats.map HandSeatRecord.seat).Nodup ∧
            Fresh (rows ++ [seatRow handId s]) handId seats) := by
      rw [hothers, List.map_cons, List.nodup_cons, List.forall_mem_cons, Fresh,
        List.forall_mem_cons]
      constructor
      · rintro ⟨⟨-, hplayers⟩, ⟨hnotin, hnodup⟩, -, hold⟩
        exact ⟨hplayers, hnodup, hold, hnotin⟩
      · rintro ⟨hplayers, hnodup, hold, hnotin⟩
        exact ⟨⟨hknown, hplayers⟩, ⟨hnotin, hnodup⟩, hfresh, hold⟩
    refine ⟨fun h => ?_, fun h => herror (mt hall.mpr h)⟩
    refine (hok (hall.mp h)).trans ?_
    rw [List.append_assoc, List.map_cons]
    rfl

/-! ## The tables of an archive -/

/-- The header of a hand. -/
def header (i : ℕ) (hand : HandSubmission) : HandRow :=
  ⟨i, hand.tableId, hand.startedAt, hand.endedAt, hand.log⟩

/-- The tables with the rows of one more hand. -/
def withHand (store : HandStore) (i : ℕ) (hand : HandSubmission) : HandStore :=
  { store with
    hands := store.hands ++ [header i hand]
    handSeats := store.handSeats ++ hand.seats.map (seatRow i)
    nextHandId := i + 1 }

/-- The tables hold the hands of the archive, numbered from 1. -/
structure Holds (store : HandStore) (a : Archive) : Prop where
  users_eq : store.users = a.users
  nextHandId_eq : store.nextHandId = a.hands.length + 1
  length_eq : store.hands.length = a.hands.length
  find_zero : (store.hands.find? fun row => row.id = 0) = none
  find_succ : ∀ i, (store.hands.find? fun row => row.id = i + 1) =
    a.hands[i]?.map (header (i + 1))
  filter_eq : ∀ i, (store.handSeats.filter fun row => row.handId = i + 1) =
    a.hands[i]?.elim [] fun hand => hand.seats.map (seatRow (i + 1))

namespace Holds

variable {store : HandStore} {a : Archive}

theorem migrated : HandStore.migrated.Holds .empty :=
  ⟨rfl, rfl, rfl, rfl, fun _ => rfl, fun _ => rfl⟩

/-- The next hand has no rows. -/
theorem fresh (h : store.Holds a) (seats : List HandSeatRecord) :
    Fresh store.handSeats store.nextHandId seats := by
  intro s _ row hrow hhand
  have hnone := h.filter_eq a.hands.length
  rw [List.getElem?_eq_none le_rfl, Option.elim_none, List.filter_eq_nil_iff] at hnone
  exact absurd (decide_eq_true (hhand.trans h.nextHandId_eq)) (hnone row hrow)

/-- One more hand is held under the next number. -/
theorem withHand (h : store.Holds a) (hand : HandSubmission) :
    (store.withHand (a.hands.length + 1) hand).Holds { a with hands := a.hands ++ [hand] } := by
  have hother : ∀ i, a.hands.length ≠ i → (a.hands ++ [hand])[i]? = a.hands[i]? := by
    intro i hi
    rcases lt_or_gt_of_ne hi with hlt | hlt
    · rw [List.getElem?_eq_none (by simp; omega), List.getElem?_eq_none hlt.le]
    · exact List.getElem?_append_left hlt
  refine ⟨h.users_eq, by simp [HandStore.withHand], by simp [HandStore.withHand, h.length_eq],
    ?_, fun i => ?_, fun i => ?_⟩
  · rw [HandStore.withHand, List.find?_append, h.find_zero]
    rfl
  · rw [HandStore.withHand, List.find?_append, h.find_succ]
    by_cases hi : a.hands.length = i
    · subst hi
      simp [header]
    · rw [hother i hi]
      simp [header, hi]
  · rw [HandStore.withHand, List.filter_append, h.filter_eq, List.filter_map]
    by_cases hi : a.hands.length = i
    · subst hi
      simp [Function.comp_def, seatRow]
    · rw [hother i hi]
      simp [Function.comp_def, seatRow, hi]

/-- A hand that is accepted is stored under the next number. -/
theorem recordHand_accepted (h : store.Holds a) {hand : HandSubmission} (hok : a.Accepts hand) :
    store.recordHand hand =
      .ok (a.hands.length + 1, store.withHand (a.hands.length + 1) hand) := by
  have hknown := hok.2
  rw [← h.users_eq] at hknown
  have hrows := (foldlM_insertSeat store.users store.nextHandId hand.seats store.handSeats).1
    ⟨hknown, hok.1, h.fresh _⟩
  rw [recordHand, hrows, ← h.nextHandId_eq]
  rfl

/-- A hand that is not accepted is not stored. -/
theorem recordHand_refused (h : store.Holds a) {hand : HandSubmission} (hok : ¬ a.Accepts hand) :
    store.recordHand hand = .error .database := by
  have hrows := (foldlM_insertSeat store.users store.nextHandId hand.seats store.handSeats).2
    fun hall => hok ⟨hall.2.1, h.users_eq ▸ hall.1⟩
  rw [recordHand, hrows]
  rfl

theorem fetchHand (h : store.Holds a) (id : ℕ) : store.fetchHand id = a.fetch id := by
  cases id with
  | zero =>
    rw [HandStore.fetchHand, h.find_zero]
    rfl
  | succ i =>
    rw [HandStore.fetchHand, h.find_succ, h.filter_eq, Archive.fetch]
    cases a.hands[i]? with
    | none => rfl
    | some hand =>
      -- the rows are sorted as the seats are that they were made of
      have hsorted := List.map_mergeSort (l := hand.seats.map (seatRow (i + 1)))
        (r := fun a b => decide (a.seat ≤ b.seat)) (s := fun a b => decide (a.seat ≤ b.seat))
        (f := fun row : HandSeatRow => (⟨row.seat, row.userId, row.chipDelta, row.satOut ≠ 0⟩ :
          HandSeatRecord)) fun _ _ _ _ => rfl
      have hback : (hand.seats.map (seatRow (i + 1))).map (fun row : HandSeatRow =>
          (⟨row.seat, row.userId, row.chipDelta, row.satOut ≠ 0⟩ : HandSeatRecord)) =
            hand.seats := by
        rw [List.map_map]
        refine (List.map_congr_left fun s _ => ?_).trans (List.map_id _)
        cases s with
        | mk seat playerId chipDelta satOut => cases satOut <;> rfl
      rw [hback] at hsorted
      simp only [Option.map_some, Option.elim_some, Option.bind_eq_bind, Option.bind_some,
        Option.pure_def, hsorted, header]
      rfl

/-- Each call is answered alike. -/
theorem answer (h : store.Holds a) (call : HandCall) :
    (store.answer call).1 = (a.answer call).1 ∧ (store.answer call).2.Holds (a.answer call).2 := by
  cases call with
  | addUser playerId =>
    exact ⟨rfl, congrArg (· ++ [playerId]) h.users_eq, h.nextHandId_eq, h.length_eq, h.find_zero,
      h.find_succ, h.filter_eq⟩
  | recordHand hand =>
    by_cases hok : a.Accepts hand
    · simp only [HandStore.answer, h.recordHand_accepted hok, Archive.answer, if_pos hok]
      exact ⟨trivial, h.withHand hand⟩
    · simp only [HandStore.answer, h.recordHand_refused hok, Archive.answer, if_neg hok]
      exact ⟨trivial, h⟩
  | fetchHand id => exact ⟨congrArg HandAnswer.fetched (h.fetchHand id), h⟩
  | countHands => exact ⟨congrArg HandAnswer.counted h.length_eq, h⟩

/-- All calls are answered alike. -/
theorem run (calls : List HandCall) (h : store.Holds a) :
    store.answers calls = a.answers calls ∧ (store.after calls).Holds (a.after calls) := by
  induction calls generalizing store a with
  | nil => exact ⟨rfl, h⟩
  | cons call calls ih =>
    obtain ⟨hanswer, hnext⟩ := h.answer call
    obtain ⟨hanswers, hafter⟩ := ih hnext
    rw [HandStore.answers, Archive.answers, hanswer, hanswers]
    exact ⟨rfl, hafter⟩

end Holds

end HandStore

/-- From the migrated database on, every run of calls is answered as by the archive. -/
theorem hand_store_archives (calls : List HandCall) :
    HandStore.migrated.answers calls = Archive.empty.answers calls :=
  (HandStore.Holds.migrated.run calls).1

end VibePoker.Server
