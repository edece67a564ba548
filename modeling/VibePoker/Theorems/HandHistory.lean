import VibePoker.Server.HandHistory
import VibePoker.Theorems.HandArchive
import VibePoker.Theorems.TableChips

/-!
# The hand history of a table

Every hand that a table settles is stored, once and in order, although players come and go
between the settling and the storing, and other tables write to the same store. Its rows
are in the order of the seats, each with the player who was dealt in there, and they
account for the chips of every player: what somebody has at the table and has taken away
is what was bought in for, and what the stored hands say was won.

## Main definitions

* `SettledHand.Sound` — the rows of a hand cancel, and agree with its log
* `Till.Kept` — the invariant of the runs of a till

## Main results

* `hand_history_accounts` — every run of a till
-/

namespace VibePoker.Game.CompleteHand

open VibePoker.Core

/-- If all seats have chips, the result names each of them, in order. -/
theorem seats_eq_range (hand : CompleteHand) (hfunded : ∀ stack ∈ hand.startingStacks, 0 < stack) :
    hand.result.seats.map SeatOutcome.seat = List.range hand.startingStacks.length := by
  have hrun : runHand hand.engine hand.handId hand.deckSeed hand.order hand.startingStacks
      hand.dealer hand.seatKinds hand.answers =
        (hand.outputs, .finished hand.result hand.players hand.chipDeltas hand.rest) :=
    Prod.ext rfl hand.finished
  obtain ⟨s, deck, canonicalBb, events, later, hsetup, -, haward⟩ := runHand_passes hrun
  obtain ⟨t, hpassage, hends, -⟩ := haward.passage
  have htold := foldsTold_of_passage hpassage
  obtain ⟨s', hfold, -, hstatus⟩ := setupHand_folds (Nat.zero_le 52) hsetup
  -- nobody is out after the setup, so nobody is out at the end
  have hout : ∀ i, (hand.players i).status ≠ .out := by
    intro i
    have hpos := hfunded _ (List.get_mem hand.startingStacks i)
    have hsome : 0 < fundedSeats hand.startingStacks :=
      List.countP_pos_iff.mpr ⟨_, List.get_mem _ i, decide_eq_true hpos⟩
    have hin : (forcedPlayer hand.engine hand.startingStacks hand.dealer i).stillIn := by
      rw [forcedPlayer_stillIn hsome]
      exact decide_eq_true hpos
    rw [hends.status_eq, ne_eq, htold.out_iff, (foldDeadHands_eq_some hfold).2 i, hstatus i]
    have hne := stillIn_ne_out hin
    dsimp only [statusAfterFold]
    split
    · decide
    · exact hne
  rw [hand.tellsSeats.seats_eq, List.filter_eq_self.mpr, List.map_coe_finRange_eq_range]
  intro i _
  exact decide_eq_true (hout i)

end VibePoker.Game.CompleteHand

namespace VibePoker.Server

open VibePoker.Core VibePoker.Game VibePoker.Net VibePoker.CS

variable {κ : Type*} {m : ℕ}

/-! ## The chips of a player -/

section Chips

variable {p : ℕ} {seats kept : Fin m → Option (Seat κ)}

/-- What is kept and what is taken is what there was. -/
theorem heldBy_add_takenBy
    (h : ∀ i seat, kept i = some seat → (seats i).elim 0 (chipsOf p) = chipsOf p seat) :
    heldBy p kept + takenBy p seats kept = heldBy p seats := by
  rw [heldBy, takenBy, heldBy, ← Finset.sum_add_distrib]
  refine Finset.sum_congr rfl fun i _ => ?_
  cases hkept : kept i with
  | none => simp
  | some seat => simp [h i seat hkept]

/-- Seats that stay as they are. -/
theorem heldBy_self : heldBy p seats + takenBy p seats seats = heldBy p seats :=
  heldBy_add_takenBy fun i seat hi => by rw [hi]; rfl

/-- What changes at one seat only. -/
theorem heldBy_of_eq {i : Fin m} (h : ∀ j, j ≠ i → kept j = seats j) :
    heldBy p kept + (seats i).elim 0 (chipsOf p) =
      heldBy p seats + (kept i).elim 0 (chipsOf p) := by
  have hrest : ∑ j ∈ Finset.univ.erase i, (kept j).elim 0 (chipsOf p) =
      ∑ j ∈ Finset.univ.erase i, (seats j).elim 0 (chipsOf p) :=
    Finset.sum_congr rfl fun j hj => by rw [h j (Finset.ne_of_mem_erase hj)]
  rw [heldBy, heldBy, ← Finset.add_sum_erase _ _ (Finset.mem_univ i),
    ← Finset.add_sum_erase _ (fun j => (seats j).elim 0 (chipsOf p)) (Finset.mem_univ i), hrest]
  omega

/-- A seat that is taken brings its chips, and nobody leaves with any. -/
theorem heldBy_sat {a : TableInner κ m} {i : Fin m} (hfree : a.seats i = none) (seat : Seat κ) :
    heldBy p (a.setSeat i (some seat)).seats + takenBy p a.seats (a.setSeat i (some seat)).seats =
      heldBy p a.seats + chipsOf p seat := by
  have hsum : heldBy p (a.setSeat i (some seat)).seats + (a.seats i).elim 0 (chipsOf p) =
      heldBy p a.seats + ((a.setSeat i (some seat)).seats i).elim 0 (chipsOf p) :=
    heldBy_of_eq fun j hj => TableInner.setSeat_seats_of_ne _ hj
  have hnone : takenBy p a.seats (a.setSeat i (some seat)).seats = 0 := by
    refine Finset.sum_eq_zero fun j _ => ?_
    by_cases hji : j = i
    · rw [hji, TableInner.setSeat_seats_self]
      rfl
    · rw [TableInner.setSeat_seats_of_ne _ hji]
      cases hj : a.seats j <;> simp
  rw [hfree, TableInner.setSeat_seats_self] at hsum
  rw [hnone]
  exact hsum

/-- A release takes the chips of the seat away, if it vacates it. -/
theorem heldBy_release {a : TableInner κ m} (i : Fin m) :
    heldBy p (a.release i).seats + takenBy p a.seats (a.release i).seats = heldBy p a.seats := by
  refine heldBy_add_takenBy fun j seat hj => ?_
  obtain ⟨before, hbefore, rfl | ⟨-, rfl⟩⟩ := TableInner.release_seats hj
  · rw [hbefore]
    rfl
  · rw [hbefore]
    rfl

/-- Another connection for a seat moves no chips. -/
theorem heldBy_bound {a : TableInner κ m} {i : Fin m} {seat : Seat κ}
    (hseat : a.seats i = some seat) (link : κ) :
    heldBy p (a.setSeat i (some { seat with link := link })).seats +
        takenBy p a.seats (a.setSeat i (some { seat with link := link })).seats =
      heldBy p a.seats := by
  refine heldBy_add_takenBy fun j other hj => ?_
  by_cases hji : j = i
  · subst hji
    rw [TableInner.setSeat_seats_self] at hj
    obtain rfl := Option.some.inj hj
    rw [hseat]
    rfl
  · rw [TableInner.setSeat_seats_of_ne _ hji] at hj
    rw [hj]
    rfl

/-- The player at seat `k` of the table. -/
def playerAt (seats : Fin m → Option (Seat κ)) (k : ℕ) : Option ℕ :=
  if h : k < m then (seats ⟨k, h⟩).map Seat.playerId else none

theorem playerAt_eq {i : Fin m} : playerAt seats i = (seats i).map Seat.playerId :=
  dif_pos i.isLt

/-- A player gets the deltas of the own seat. -/
theorem heldBy_applyDeltas {outcomes : List SeatOutcome}
    (hnodup : (outcomes.map SeatOutcome.seat).Nodup)
    (hpays : ∀ o ∈ outcomes, ∃ i : Fin m, ∃ seat, o.seat = i ∧ seats i = some seat ∧
      0 ≤ (seat.stack : ℤ) + o.chipDelta) :
    (heldBy p (TableInner.applyDeltas seats outcomes) : ℤ) =
      heldBy p seats + (outcomes.map fun o =>
        if playerAt seats o.seat = some p then o.chipDelta else 0).sum := by
  induction outcomes generalizing seats with
  | nil => simp [TableInner.applyDeltas]
  | cons o outcomes ih =>
    obtain ⟨hfirst, hrest⟩ := List.nodup_cons.mp hnodup
    obtain ⟨i, seat, hi, hseat, hpay⟩ := hpays o List.mem_cons_self
    have hother : ∀ o' ∈ outcomes, o.seat ≠ o'.seat := fun o' ho' heq =>
      hfirst (List.mem_map.mpr ⟨o', ho', heq.symm⟩)
    have hone : (heldBy p (TableInner.applyOutcome seats o) : ℤ) = heldBy p seats +
        if playerAt seats o.seat = some p then o.chipDelta else 0 := by
      have hsum : heldBy p (TableInner.applyOutcome seats o) + (seats i).elim 0 (chipsOf p) =
          heldBy p seats + (TableInner.applyOutcome seats o i).elim 0 (chipsOf p) :=
        heldBy_of_eq fun j hj =>
          TableInner.applyOutcome_of_ne fun heq => hj (Fin.ext (heq.symm.trans hi))
      rw [TableInner.applyOutcome_self hi, hseat] at hsum
      rw [hi, playerAt_eq, hseat]
      simp only [Option.map_some, Option.elim_some, chipsOf, Option.some.injEq] at hsum ⊢
      split_ifs at hsum ⊢ <;> omega
    have hplayers : ∀ o' ∈ outcomes,
        playerAt (TableInner.applyOutcome seats o) o'.seat = playerAt seats o'.seat := by
      intro o' ho'
      unfold playerAt
      split
      · rw [TableInner.applyOutcome_of_ne (hother o' ho')]
      · rfl
    rw [TableInner.applyDeltas_cons, ih hrest, hone, List.map_cons, List.sum_cons, add_assoc,
      List.map_congr_left fun o' ho' => by rw [hplayers o' ho']]
    intro o' ho'
    obtain ⟨j, other, hj, hat, hpay'⟩ := hpays o' (List.mem_cons_of_mem _ ho')
    refine ⟨j, other, hj, ?_, hpay'⟩
    rw [TableInner.applyOutcome_of_ne fun heq => hother o' ho' (heq.trans hj.symm), hat]

/-- What a player won, row by row. -/
theorem wonBy_eq (p : ℕ) (rows : List HandSeatRecord) :
    wonBy p rows =
      (rows.map fun row => if row.playerId = some p then row.chipDelta else 0).sum := by
  induction rows with
  | nil => rfl
  | cons row rows ih =>
    rw [wonBy] at ih ⊢
    by_cases hrow : row.playerId = some p <;> simp [hrow, ih]

end Chips

/-! ## The hand that is settled -/

section Settling

variable {e : Engine} {tableId : ℕ} {snapshot : RunningSnapshot κ m} {r : HandResult}

/-- The outcomes are those of all players of the snapshot in order, or there are none. -/
def Listed (snapshot : RunningSnapshot κ m) (r : HandResult) : Prop :=
  r.seats = [] ∨ r.seats.map SeatOutcome.seat = List.range snapshot.players.length

/-- The log ends with the result, or there is neither. -/
def Logged (log : List EngineEvent) (r : HandResult) : Prop :=
  (log = [] ∧ r.seats = []) ∨ ∃ events handId, log = events ++ [.handEnded handId r]

/-- A hand whose players all have chips reports all of them, and its log says so. -/
theorem listed_of_handResult {order : Fin 52 → Card} {answers : List Action}
    (hfunded : ∀ p ∈ snapshot.players, 0 < p.stack)
    (h : handResult? e tableId order snapshot answers = some r) :
    Listed snapshot r ∧
      Logged (TableActor.recorded e tableId snapshot (.op (.actor (.finish order answers)))) r := by
  rw [handResult?] at h
  simp only [TableActor.recorded]
  rcases hrun : runHand e snapshot.handId (deriveSeed tableId snapshot.handId) order
      (snapshot.players.map SnapshotPlayer.stack) snapshot.dealer none answers with
    ⟨outputs, outcome⟩
  rw [hrun] at h
  cases outcome with
  | finished result players chipDeltas rest =>
    obtain rfl : result = r := Option.some.inj h
    let hand : Game.CompleteHand := ⟨e, snapshot.handId, deriveSeed tableId snapshot.handId, order,
      snapshot.players.map SnapshotPlayer.stack, snapshot.dealer, none, answers, result, players,
      chipDeltas, rest, by rw [hrun]⟩
    have hpos : ∀ stack ∈ hand.startingStacks, 0 < stack := by
      intro stack hstack
      obtain ⟨p, hp, rfl⟩ := List.mem_map.mp hstack
      exact hfunded p hp
    obtain ⟨mid, hlog, -⟩ := hand.tellsSeats.log_eq
    have hlisted := hand.seats_eq_range hpos
    rw [List.length_map] at hlisted
    have hevents : eventsOf outputs = hand.log := by
      rw [CompleteHand.log, CompleteHand.outputs, hrun]
    rw [hlog] at hevents
    exact ⟨Or.inr hlisted, Or.inr ⟨_ :: mid, _, hevents⟩⟩
  | panicked =>
    obtain rfl := Option.some.inj h
    exact ⟨Or.inl rfl, Or.inl ⟨rfl, rfl⟩⟩
  | waiting => cases h
  | spinning => cases h

/-- The rows of a hand, with the players of the snapshot. -/
def rowsOf (playerOf : κ → ℕ) (snapshot : RunningSnapshot κ m) (r : HandResult) :
    List HandSeatRecord :=
  handSeatRecords (rWithTableSeats r (snapshot.players.map SnapshotPlayer.tableSeat))
    (snapshot.players.map fun p => playerOf p.link)

variable {playerOf : κ → ℕ}

/-- The rows have the outcomes of the engine in their order. -/
theorem rowsOf_chipDelta :
    (rowsOf playerOf snapshot r).map HandSeatRecord.chipDelta =
      r.seats.map SeatOutcome.chipDelta := by
  refine List.ext_getElem? fun k => ?_
  simp only [rowsOf, handSeatRecords, rWithTableSeats, List.getElem?_map, List.getElem?_zipIdx]
  cases r.seats[k]? with
  | none => rfl
  | some o =>
    simp only [Option.map_some]
    split <;> rfl

/-- The player of a row is one of the snapshot. -/
theorem player_of_mem_rowsOf {row : HandSeatRecord} (h : row ∈ rowsOf playerOf snapshot r)
    {id : ℕ} (hid : row.playerId = some id) : ∃ p ∈ snapshot.players, playerOf p.link = id := by
  obtain ⟨⟨o, k⟩, -, rfl⟩ := List.mem_map.mp h
  simp only [List.getElem?_map, Option.map_eq_some_iff] at hid
  obtain ⟨p, hp, rfl⟩ := hid
  exact ⟨p, List.mem_of_getElem? hp, rfl⟩

variable (hlisted : Listed snapshot r)
include hlisted

/-- The `k`-th outcome is that of the `k`-th player, at that player's seat. -/
theorem Listed.getElem? {k : ℕ} {o : SeatOutcome}
    (h : (rWithTableSeats r (snapshot.players.map SnapshotPlayer.tableSeat)).seats[k]? = some o) :
    ∃ p, snapshot.players[k]? = some p ∧ o.seat = p.tableSeat := by
  simp only [rWithTableSeats, List.getElem?_map, Option.map_eq_some_iff] at h
  obtain ⟨o₀, ho₀, rfl⟩ := h
  rcases hlisted with hnone | hrange
  · rw [hnone] at ho₀
    cases ho₀
  · have hk := congrArg (fun l : List ℕ => l[k]?) hrange
    simp only [List.getElem?_map, ho₀, Option.map_some] at hk
    obtain ⟨hlt, hseat⟩ := List.getElem?_eq_some_iff.mp hk.symm
    rw [List.getElem_range] at hseat
    rw [List.length_range] at hlt
    refine ⟨_, List.getElem?_eq_getElem hlt, ?_⟩
    rw [← hseat, List.getElem?_eq_getElem hlt]
    rfl

/-- The rows are those of seats of the snapshot, in order. -/
theorem Listed.rowsOf_seat :
    ((rowsOf playerOf snapshot r).map HandSeatRecord.seat).Sublist
      (snapshot.players.map fun p => (p.tableSeat : ℕ)) := by
  rcases hlisted with hnone | hrange
  · rw [rowsOf, handSeatRecords, rWithTableSeats, hnone]
    exact List.nil_sublist _
  · have heq : (rowsOf playerOf snapshot r).map HandSeatRecord.seat =
        (r.seats.map SeatOutcome.seat).map fun k =>
          ((snapshot.players[k]?).map fun p => (p.tableSeat : ℕ)).getD k := by
      refine List.ext_getElem? fun k => ?_
      simp only [rowsOf, handSeatRecords, rWithTableSeats, List.getElem?_map,
        List.getElem?_zipIdx]
      cases r.seats[k]? with
      | none => rfl
      | some o => cases hp : snapshot.players[o.seat]? <;> simp [hp]
    rw [heq, hrange]
    have hplayers : ((List.range snapshot.players.length).map fun k =>
        ((snapshot.players[k]?).map fun p => (p.tableSeat : ℕ)).getD k) =
          snapshot.players.map fun p => (p.tableSeat : ℕ) := by
      refine List.ext_getElem (by simp) fun k hk _ => ?_
      simp only [List.length_map, List.length_range] at hk
      simp [hk]
    rw [hplayers]

/-- What a player wins by the rows is what the deltas of the table's seats give. -/
theorem Listed.wonBy_eq (seats : Fin m → Option (Seat κ))
    (hseated : ∀ p ∈ snapshot.players, ∃ seat, seats p.tableSeat = some seat ∧
      seat.playerId = playerOf p.link) (q : ℕ) :
    wonBy q (rowsOf playerOf snapshot r) =
      ((rWithTableSeats r (snapshot.players.map SnapshotPlayer.tableSeat)).seats.map fun o =>
        if playerAt seats o.seat = some q then o.chipDelta else 0).sum := by
  rw [Server.wonBy_eq, rowsOf, handSeatRecords, List.map_map]
  refine congrArg List.sum (List.ext_getElem? fun k => ?_)
  simp only [List.getElem?_map, List.getElem?_zipIdx]
  cases ho : (rWithTableSeats r (snapshot.players.map SnapshotPlayer.tableSeat)).seats[k]? with
  | none => rfl
  | some o =>
    obtain ⟨p, hp, hseat⟩ := hlisted.getElem? ho
    obtain ⟨seat, hat, hplayer⟩ := hseated p (List.mem_of_getElem? hp)
    simp [hseat, playerAt_eq, hat, hp, hplayer]

end Settling

/-! ## What a session does -/

/-- What an operation of a session does to the seats: nothing, or it fills one, releases one
or binds one to another link of its player. -/
inductive SessionChange (a : TableInner κ m) : TableOp κ → ℕ → TableInner κ m → Prop
  | refused (op : TableOp κ) : SessionChange a op 0 a
  | sat {playerId buyIn : ℕ} {username : String} {link : κ} {i : Fin m} (hfree : a.seats i = none) :
      SessionChange a (.sit playerId username link buyIn) buyIn
        (a.setSeat i (some ⟨playerId, username, buyIn, link, false⟩))
  | left (playerId : ℕ) (i : Fin m) : SessionChange a (.leave playerId) 0 (a.release i)
  | dropped (playerId : ℕ) (sessionId : Option ℤ) (i : Fin m) :
      SessionChange a (.forceLeave playerId sessionId) 0 (a.release i)
  | bound {playerId : ℕ} {link : κ} {i : Fin m} {seat : Seat κ} (hseat : a.seats i = some seat)
      (hplayer : seat.playerId = playerId) :
      SessionChange a (.reconnect playerId link) 0 (a.setSeat i (some { seat with link := link }))

section Sessions

variable {e : Engine} {sessionOf : κ → ℤ} {tableId : ℕ} {config : TableConfig}
  {a b : TableActor κ m} {op : TableOp κ}

theorem sessionChange_of_step (hop : ∀ actorOp, op ≠ .actor actorOp)
    (h : a.step e sessionOf tableId config op = some b) :
    SessionChange a.inner op (a.buyIn config (.op op)) b.inner := by
  cases op with
  | sit playerId username link buyIn =>
    simp only [TableActor.step] at h
    split at h
    · rename_i i inner hsit
      obtain rfl := Option.some.inj h
      rw [TableActor.buyIn, hsit]
      obtain ⟨-, -, hfree, rfl⟩ := TableInner.sit_eq_ok hsit
      exact .sat hfree
    · rename_i reason hsit
      obtain rfl := Option.some.inj h
      rw [TableActor.buyIn, hsit]
      exact .refused _
  | leave playerId =>
    simp only [TableActor.step] at h
    split at h
    · rename_i inner hleave
      obtain rfl := Option.some.inj h
      obtain ⟨i, -, rfl⟩ := TableInner.leave_eq_ok hleave
      exact .left playerId i
    · obtain rfl := Option.some.inj h
      exact .refused _
  | forceLeave playerId sessionId =>
    obtain rfl := Option.some.inj h
    rcases TableInner.forceLeave_cases sessionOf a.inner playerId sessionId with
      hsame | ⟨i, seat, -, -, -, hrelease⟩
    · simp only [hsame]
      exact .refused _
    · simp only [hrelease]
      exact .dropped playerId sessionId i
  | reconnect playerId link =>
    simp only [TableActor.step] at h
    split at h
    · rename_i i inner hreconnect
      obtain rfl := Option.some.inj h
      obtain ⟨seat, hat, hseat, rfl⟩ := TableInner.reconnectPlayer_eq_some hreconnect
      obtain ⟨other, hother, hplayer⟩ := TableInner.seatOf_eq_some hat
      obtain rfl := Option.some.inj (hseat.symm.trans hother)
      exact .bound hseat hplayer
    · obtain rfl := Option.some.inj h
      exact .refused _
  | actor actorOp => exact absurd rfl (hop actorOp)

/-- What a player has and takes away is what the player had and brings. -/
theorem heldBy_of_sessionChange (p : ℕ)
    (h : SessionChange a.inner op (a.buyIn config (.op op)) b.inner) :
    heldBy p b.inner.seats + takenBy p a.inner.seats b.inner.seats =
      heldBy p a.inner.seats + a.boughtBy config p (.op op) := by
  generalize hbought : a.buyIn config (.op op) = bought at h
  generalize b.inner = inner at h ⊢
  cases h with
  | refused =>
    have hnone : a.boughtBy config p (.op op) = 0 := by
      cases op <;> simp [TableActor.boughtBy, hbought]
    rw [hnone]
    exact heldBy_self
  | sat hfree =>
    rw [TableActor.boughtBy, hbought]
    exact heldBy_sat hfree _
  | left playerId i => exact heldBy_release i
  | dropped playerId sessionId i => exact heldBy_release i
  | bound hseat hplayer => exact heldBy_bound hseat _

end Sessions

/-! ## The hands in the store -/

namespace HandStore.Holds

variable {store : HandStore} {a : Archive}

/-- One more hand comes last among those of its table. -/
theorem handsOf_withHand (h : store.Holds a) (hand : HandSubmission) (tableId : ℕ) :
    (store.withHand (a.hands.length + 1) hand).handsOf tableId = store.handsOf tableId ++
      if hand.tableId = tableId then [⟨a.hands.length + 1, hand.tableId, hand.startedAt,
        hand.endedAt, hand.log, Archive.sortedSeats hand⟩] else [] := by
  have hafter := h.withHand hand
  have hold : ∀ i ∈ List.range a.hands.length,
      (store.withHand (a.hands.length + 1) hand).fetchHand (i + 1) = store.fetchHand (i + 1) := by
    intro i hi
    rw [hafter.fetchHand, h.fetchHand, Archive.fetch, Archive.fetch,
      List.getElem?_append_left (List.mem_range.mp hi)]
  have hnew : (store.withHand (a.hands.length + 1) hand).fetchHand (a.hands.length + 1) =
      some ⟨a.hands.length + 1, hand.tableId, hand.startedAt, hand.endedAt, hand.log,
        Archive.sortedSeats hand⟩ := by
    rw [hafter.fetchHand, Archive.fetch, List.getElem?_concat_length]
    rfl
  have hcount : (store.withHand (a.hands.length + 1) hand).countHands = a.hands.length + 1 :=
    hafter.length_eq.trans (by simp)
  rw [handsOf, handsOf, hcount, List.range_succ, List.filterMap_append, List.filter_append,
    List.filterMap_congr hold, countHands, h.length_eq]
  simp [hnew, List.filter_cons]

/-- The calls of others leave the hands of this table alone. -/
theorem handsOf_answer (h : store.Holds a) {tableId : ℕ} {call : HandCall}
    (hother : ∀ hand, call = .recordHand hand → hand.tableId ≠ tableId) :
    (store.answer call).2.handsOf tableId = store.handsOf tableId ∧
      store.users ⊆ (store.answer call).2.users := by
  cases call with
  | addUser playerId => exact ⟨rfl, List.subset_append_left _ _⟩
  | recordHand hand =>
    by_cases hok : a.Accepts hand
    · simp only [HandStore.answer, h.recordHand_accepted hok]
      rw [h.handsOf_withHand, if_neg (hother hand rfl), List.append_nil]
      exact ⟨rfl, List.Subset.refl _⟩
    · simp only [HandStore.answer, h.recordHand_refused hok]
      exact ⟨trivial, List.Subset.refl _⟩
  | fetchHand id => exact ⟨rfl, List.Subset.refl _⟩
  | countHands => exact ⟨rfl, List.Subset.refl _⟩

end HandStore.Holds

/-! ## The statement -/

/-- The rows of a hand cancel, are in the order of the seats, and have the deltas of the
result that its log ends with. -/
structure SettledHand.Sound (hand : SettledHand) : Prop where
  sum_eq : (hand.rows.map HandSeatRecord.chipDelta).sum = 0
  ascending : (hand.rows.map HandSeatRecord.seat).Pairwise (· < ·)
  logged : (hand.log = [] ∧ hand.rows = []) ∨
    ∃ events handId result, hand.log = events ++ [.handEnded handId result] ∧
      result.seats.map SeatOutcome.chipDelta = hand.rows.map HandSeatRecord.chipDelta

/-- What the hands of a table are stored as. -/
def HandRecord.entry (record : HandRecord) : List UInt8 × List HandSeatRecord :=
  (record.log, record.seats)

def SettledHand.entry (frames : List EngineEvent → List UInt8) (hand : SettledHand) :
    List UInt8 × List HandSeatRecord :=
  (frames hand.log, hand.rows)

/-- What others see to: a player sits down as somebody who is registered, with a link of the
own; another link is one of the same player; no other table has this id. No hand overflows. -/
def Till.Admits (playerOf : κ → ℕ) (tableId : ℕ) (s : Till κ m) : TillMove κ → Prop
  | .table (.op (.sit playerId _ link _)) => s.cashier.actor.NoOverflow ∧
    playerOf link = playerId ∧ playerId ∈ s.store.users
  | .table (.op (.reconnect playerId link)) => s.cashier.actor.NoOverflow ∧
    playerOf link = playerId
  | .table _ => s.cashier.actor.NoOverflow
  | .elsewhere (.recordHand hand) => hand.tableId ≠ tableId
  | _ => True

instance decidableAdmits (playerOf : κ → ℕ) (tableId : ℕ) (s : Till κ m) :
    ∀ move, Decidable (s.Admits playerOf tableId move)
  | .table (.op (.sit _ _ _ _)) => @instDecidableAnd _ _ (decidableNoOverflow _) instDecidableAnd
  | .table (.op (.reconnect _ _)) =>
    @instDecidableAnd _ _ (decidableNoOverflow _) (Nat.decEq _ _)
  | .table (.op (.leave _)) | .table (.op (.forceLeave _ _)) | .table (.op (.actor _))
  | .table .panic => decidableNoOverflow _
  | .elsewhere (.recordHand _) => instDecidableNot
  | .elsewhere (.addUser _) | .elsewhere (.fetchHand _) | .elsewhere .countHands
  | .persist _ _ => instDecidableTrue

/-- The runs of a till. -/
def Till.Runs (e : Engine) (playerOf : κ → ℕ) (sessionOf : κ → ℤ)
    (frames : List EngineEvent → List UInt8) (tableId : ℕ) (config : TableConfig) :
    Till κ m → List (TillMove κ) → Till κ m → Prop :=
  Trace fun s move t => s.Admits playerOf tableId move ∧
    s.step e playerOf sessionOf frames tableId config move = some t

/-! ## What every run keeps -/

/-- A seat is linked to its player, who is registered. -/
def SeatLinked (playerOf : κ → ℕ) (users : List ℕ) (seat : Seat κ) : Prop :=
  playerOf seat.link = seat.playerId ∧ seat.playerId ∈ users

/-- The players of a snapshot are in the order of their seats, and known. -/
structure DealtAmong (playerOf : κ → ℕ) (users : List ℕ) (seating : Fin m → Option ℕ)
    (snapshot : RunningSnapshot κ m) : Prop where
  ascending : (snapshot.players.map fun p => (p.tableSeat : ℕ)).Pairwise (· < ·)
  linked : ∀ p ∈ snapshot.players,
    seating p.tableSeat = some (playerOf p.link) ∧ playerOf p.link ∈ users

/-- The invariant of the runs of a till; `older` are the hands of the table that were stored
before the run. -/
structure Till.Kept (playerOf : κ → ℕ) (frames : List EngineEvent → List UInt8) (tableId : ℕ)
    (config : TableConfig) (older : List HandRecord) (s : Till κ m) : Prop where
  books : BooksBalance config s.cashier
  holds : ∃ a, s.store.Holds a
  linked : ∀ i seat, s.cashier.actor.inner.seats i = some seat →
    SeatLinked playerOf s.store.users seat
  dealt : ∀ snapshot, s.cashier.actor.phase = .playing snapshot →
    DealtAmong playerOf s.store.users s.cashier.seating snapshot
  sound : ∀ hand ∈ s.settled, hand.Sound
  unsaved : ∀ hand, s.unsaved = some hand → hand.Sound ∧
    ∀ row ∈ hand.rows, ∀ id, row.playerId = some id → id ∈ s.store.users
  stored : ∃ newer, s.store.handsOf tableId = older ++ newer ∧
    newer.map HandRecord.entry ++ s.unsaved.toList.map (SettledHand.entry frames) =
      s.settled.map (SettledHand.entry frames)
  balanced : ∀ p, (s.boughtIn p : ℤ) + (s.settled.map fun hand => wonBy p hand.rows).sum =
    heldBy p s.cashier.actor.inner.seats + s.taken p

section Steps

variable {e : Engine} {playerOf : κ → ℕ} {sessionOf : κ → ℤ}
  {frames : List EngineEvent → List UInt8} {tableId : ℕ} {config : TableConfig}
  {older : List HandRecord} {s t : Till κ m}

/-- The seats that are eligible are in order. -/
theorem ascending_eligible (config : TableConfig) (inner : TableInner κ m) :
    ((inner.eligible config).map fun p => (p.tableSeat : ℕ)).Pairwise (· < ·) := by
  have hseat : ∀ (i : Fin m) (p : SnapshotPlayer κ m), ((inner.seats i).bind fun seat =>
      if seat.stack < config.bigBlind then none else some ⟨i, seat.stack, seat.link⟩) = some p →
      p.tableSeat = i := by
    intro i p hp
    obtain ⟨seat, -, hp⟩ := Option.bind_eq_some_iff.mp hp
    split at hp
    · cases hp
    · rw [← Option.some.inj hp]
  rw [TableInner.eligible, List.pairwise_map]
  refine List.Pairwise.filterMap _ (fun i j hij p hp q hq => ?_) (List.pairwise_lt_finRange m)
  rw [hseat i p hp, hseat j q hq]
  exact hij

/-- A player of the snapshot has the link of the seat. -/
theorem link_of_mem_eligible {inner : TableInner κ m} {p : SnapshotPlayer κ m}
    (h : p ∈ inner.eligible config) :
    ∃ seat, inner.seats p.tableSeat = some seat ∧ seat.link = p.link := by
  obtain ⟨i, -, hi⟩ := List.mem_filterMap.mp h
  obtain ⟨seat, hseat, hp⟩ := Option.bind_eq_some_iff.mp hi
  split at hp
  · cases hp
  · obtain rfl := Option.some.inj hp
    exact ⟨seat, hseat, rfl⟩

/-- The others write to the store. -/
theorem Till.Kept.elsewhere (h : s.Kept playerOf frames tableId config older) {call : HandCall}
    (hother : ∀ hand, call = .recordHand hand → hand.tableId ≠ tableId) :
    Till.Kept playerOf frames tableId config older
      { s with store := (s.store.answer call).2 } := by
  obtain ⟨a, ha⟩ := h.holds
  obtain ⟨hhands, husers⟩ := ha.handsOf_answer hother
  refine ⟨h.books, ⟨_, (ha.answer call).2⟩, fun i seat hi => ?_, fun snapshot hplaying => ?_,
    h.sound, fun hand hhand => ?_, ?_, h.balanced⟩
  · obtain ⟨hlink, hknown⟩ := h.linked i seat hi
    exact ⟨hlink, husers hknown⟩
  · obtain ⟨hascending, hlinked⟩ := h.dealt snapshot hplaying
    exact ⟨hascending, fun p hp => ⟨(hlinked p hp).1, husers (hlinked p hp).2⟩⟩
  · obtain ⟨hsound, hknown⟩ := h.unsaved hand hhand
    exact ⟨hsound, fun row hrow id hid => husers (hknown row hrow id hid)⟩
  · dsimp only
    rw [hhands]
    exact h.stored

/-- The actor stores the last hand, and this does not fail. -/
theorem Till.Kept.persistHand (h : s.Kept playerOf frames tableId config older)
    {startedAt endedAt : ℕ}
    (hstep : s.persistHand frames tableId startedAt endedAt = some t) :
    t.Kept playerOf frames tableId config older := by
  obtain ⟨hand, hunsaved, rfl⟩ := Option.map_eq_some_iff.mp hstep
  obtain ⟨a, ha⟩ := h.holds
  obtain ⟨hsound, hknown⟩ := h.unsaved hand hunsaved
  obtain ⟨newer, hhands, hentries⟩ := h.stored
  have hok : a.Accepts (hand.played frames tableId startedAt endedAt) :=
    ⟨hsound.ascending.imp fun hlt => hlt.ne, fun row hrow id hid =>
      ha.users_eq ▸ hknown row hrow id hid⟩
  have hsorted : Archive.sortedSeats (hand.played frames tableId startedAt endedAt) = hand.rows :=
    List.mergeSort_of_pairwise ((List.pairwise_map.mp hsound.ascending).imp fun hlt =>
      decide_eq_true (le_of_lt hlt))
  simp only [ha.recordHand_accepted hok]
  refine ⟨h.books, ⟨_, ha.withHand _⟩, h.linked, h.dealt, h.sound, ?_, ?_, h.balanced⟩
  · intro hand hnone
    cases hnone
  · refine ⟨newer ++ [⟨a.hands.length + 1, tableId, startedAt, endedAt, frames hand.log,
      hand.rows⟩], ?_, ?_⟩
    · have hours : (hand.played frames tableId startedAt endedAt).tableId = tableId := rfl
      rw [ha.handsOf_withHand, if_pos hours, hhands, hsorted, List.append_assoc]
      rfl
    · rw [hunsaved] at hentries
      rw [← hentries, List.map_append]
      simp [HandRecord.entry, SettledHand.entry]

theorem Till.Admits.noOverflow {move : TableMove κ} (h : s.Admits playerOf tableId (.table move)) :
    s.cashier.actor.NoOverflow := by
  cases move with
  | panic => exact h
  | op op =>
    cases op with
    | sit => exact h.1
    | reconnect => exact h.1
    | _ => exact h

/-- Whoever sits at the table after an operation of a session is linked. -/
theorem linked_of_sessionChange {op : TableOp κ} {bought : ℕ} {inner : TableInner κ m}
    (hchange : SessionChange s.cashier.actor.inner op bought inner)
    (hadmits : s.Admits playerOf tableId (.table (.op op)))
    (hlinked : ∀ i seat, s.cashier.actor.inner.seats i = some seat →
      SeatLinked playerOf s.store.users seat) :
    ∀ i seat, inner.seats i = some seat → SeatLinked playerOf s.store.users seat := by
  intro j seat hj
  have hreleased : ∀ i, (s.cashier.actor.inner.release i).seats j = some seat →
      SeatLinked playerOf s.store.users seat := by
    intro i hi
    obtain ⟨before, hbefore, rfl | ⟨-, rfl⟩⟩ := TableInner.release_seats hi
    · exact hlinked j _ hbefore
    · exact hlinked j before hbefore
  cases hchange with
  | refused => exact hlinked j seat hj
  | @sat playerId buyIn username link i hfree =>
    by_cases hji : j = i
    · subst hji
      rw [TableInner.setSeat_seats_self] at hj
      obtain rfl := Option.some.inj hj
      exact hadmits.2
    · rw [TableInner.setSeat_seats_of_ne _ hji] at hj
      exact hlinked j seat hj
  | left playerId i => exact hreleased i hj
  | dropped playerId sessionId i => exact hreleased i hj
  | @bound playerId link i other hother hplayer =>
    by_cases hji : j = i
    · subst hji
      rw [TableInner.setSeat_seats_self] at hj
      obtain rfl := Option.some.inj hj
      exact ⟨hadmits.2.trans hplayer.symm, (hlinked j other hother).2⟩
    · rw [TableInner.setSeat_seats_of_ne _ hji] at hj
      exact hlinked j seat hj

/-- The hand that a move settles is recorded soundly, and pays the players at the table. -/
theorem Till.Kept.settles (h : s.Kept playerOf frames tableId config older)
    (hseats : 2 ≤ config.minSeats) (hblind : 0 < config.bigBlind) (hrules : 0 < e.rules.bigBlind)
    (hfits : s.cashier.actor.NoOverflow) {move : TableMove κ} {snapshot : RunningSnapshot κ m}
    {r : HandResult} (hplaying : s.cashier.actor.phase = .playing snapshot)
    (hr : (∃ order answers, move = .op (.actor (.finish order answers)) ∧
        handResult? e tableId order snapshot answers = some r) ∨
      (move = .panic ∧ r = ⟨snapshot.handId, [], []⟩)) :
    (SettledHand.mk (rWithTableSeats r (snapshot.players.map SnapshotPlayer.tableSeat))
        (snapshot.players.map fun p => playerOf p.link)
        (TableActor.recorded e tableId snapshot move)).Sound ∧
      ∀ q, (heldBy q (TableInner.applyDeltas s.cashier.actor.inner.seats
          (rWithTableSeats r (snapshot.players.map SnapshotPlayer.tableSeat)).seats) : ℤ) =
        heldBy q s.cashier.actor.inner.seats + wonBy q (rowsOf playerOf snapshot r) := by
  have hhand := h.books.inHand snapshot hplaying
  have hdealt := h.dealt snapshot hplaying
  have hreports := h.books.reports hseats hblind hrules hplaying hfits hr
  obtain ⟨hlisted, hlogged⟩ : Listed snapshot r ∧
      Logged (TableActor.recorded e tableId snapshot move) r := by
    rcases hr with ⟨order, answers, rfl, hr⟩ | ⟨rfl, rfl⟩
    · exact listed_of_handResult (fun p hp => hblind.trans_le (hhand.funded p hp)) hr
    · exact ⟨Or.inl rfl, Or.inl ⟨rfl, rfl⟩⟩
  have hdeltas := @rowsOf_chipDelta κ m snapshot r playerOf
  refine ⟨⟨?_, ?_, ?_⟩, fun q => ?_⟩
  · exact (congrArg List.sum hdeltas).trans hreports.sum_eq
  · exact hdealt.ascending.sublist hlisted.rowsOf_seat
  · rcases hlogged with ⟨hlog, hnone⟩ | ⟨events, handId, hlog⟩
    · refine Or.inl ⟨hlog, List.map_eq_nil_iff.mp (hdeltas.trans ?_)⟩
      rw [hnone]
      rfl
    · exact Or.inr ⟨events, handId, r, hlog, hdeltas.symm⟩
  · -- who sits where is who was dealt in there
    rw [hlisted.wonBy_eq s.cashier.actor.inner.seats]
    · refine heldBy_applyDeltas (nodup_rWithTableSeats hreports.player hreports.nodup hhand.nodup)
        fun o ho => ?_
      obtain ⟨o₀, ho₀, p, hp, rfl⟩ := exists_of_mem_rWithTableSeats hreports.player ho
      obtain ⟨seat, hseat, hstack⟩ := hhand.playersSeated p (List.mem_of_getElem? hp)
      obtain ⟨p', hp', hpays⟩ := hreports.pays o₀ ho₀
      obtain rfl := Option.some.inj (hp.symm.trans hp')
      exact ⟨p.tableSeat, seat, rfl, hseat, by rw [hstack]; exact hpays⟩
    · intro p hp
      obtain ⟨seat, hseat, hplayer, -⟩ := hhand.seated p hp
      exact ⟨seat, hseat, Option.some.inj (hplayer.symm.trans (hdealt.linked p hp).1)⟩

/-- A move of the table that settles no hand. -/
theorem Till.Kept.of_unsettled (h : s.Kept playerOf frames tableId config older)
    {move : TableMove κ} {cashier : Cashier κ m} (hbooks : BooksBalance config cashier)
    (hnone : s.cashier.actor.settles e tableId move = none)
    (hlinked : ∀ i seat, cashier.actor.inner.seats i = some seat →
      SeatLinked playerOf s.store.users seat)
    (hdealt : ∀ snapshot, cashier.actor.phase = .playing snapshot →
      DealtAmong playerOf s.store.users cashier.seating snapshot)
    (hchips : ∀ p, heldBy p cashier.actor.inner.seats +
        takenBy p s.cashier.actor.inner.seats cashier.actor.inner.seats =
      heldBy p s.cashier.actor.inner.seats + s.cashier.actor.boughtBy config p move) :
    Till.Kept playerOf frames tableId config older
      { s with
        cashier := cashier
        unsaved := s.unsaved.or (s.cashier.actor.leftToStore e playerOf tableId move)
        settled := s.settled ++ (s.cashier.actor.leftToStore e playerOf tableId move).toList
        boughtIn := fun p => s.boughtIn p + s.cashier.actor.boughtBy config p move
        taken := fun p => s.taken p +
          takenBy p (s.cashier.actor.settledSeats e tableId move) cashier.actor.inner.seats } := by
  have hleft : s.cashier.actor.leftToStore e playerOf tableId move = none := by
    rw [TableActor.leftToStore, hnone]
    rfl
  have hseats : s.cashier.actor.settledSeats e tableId move = s.cashier.actor.inner.seats := by
    rw [TableActor.settledSeats, hnone]
  rw [hleft, hseats]
  simp only [Option.or_none, Option.toList_none, List.append_nil]
  refine ⟨hbooks, h.holds, hlinked, hdealt, h.sound, h.unsaved, h.stored, fun p => ?_⟩
  have hbefore := h.balanced p
  have hafter := hchips p
  dsimp only
  push_cast
  omega

/-- A move of the table. -/
theorem Till.Kept.moveTable (h : s.Kept playerOf frames tableId config older)
    (hseats : 2 ≤ config.minSeats) (hblind : 0 < config.bigBlind) (hrules : 0 < e.rules.bigBlind)
    {move : TableMove κ} (hadmits : s.Admits playerOf tableId (.table move))
    (hstep : s.moveTable e playerOf sessionOf tableId config move = some t) :
    t.Kept playerOf frames tableId config older := by
  have hfits := hadmits.noOverflow
  rw [Till.moveTable] at hstep
  split at hstep
  case isTrue => cases hstep
  case isFalse hfree =>
    obtain ⟨cashier, hcashier, rfl⟩ := Option.map_eq_some_iff.mp hstep
    have hbooks := h.books.step hseats hblind hrules hfits hcashier
    obtain ⟨b, hmove, rfl⟩ := Option.map_eq_some_iff.mp hcashier
    cases moved_of_move hmove with
    | @settled _ snapshot r hplaying hsettles hr =>
      obtain ⟨hsound, hpaid⟩ := h.settles hseats hblind hrules hfits hplaying hr
      have hactor : move.byActor := by
        rcases hr with ⟨order, answers, rfl, -⟩ | ⟨rfl, -⟩ <;> rfl
      have hunsaved : s.unsaved = none := by
        cases hcase : s.unsaved with
        | none => rfl
        | some hand => exact absurd ⟨by rw [hcase]; rfl, hactor⟩ hfree
      have hbought : ∀ p, s.cashier.actor.boughtBy config p move = 0 := by
        intro p
        rcases hr with ⟨order, answers, rfl, -⟩ | ⟨rfl, -⟩ <;> rfl
      have hsettled : s.cashier.actor.settledSeats e tableId move =
          TableInner.applyDeltas s.cashier.actor.inner.seats
            (rWithTableSeats r (snapshot.players.map SnapshotPlayer.tableSeat)).seats := by
        rw [TableActor.settledSeats, hsettles]
      have hleft : s.cashier.actor.leftToStore e playerOf tableId move = some
          ⟨rWithTableSeats r (snapshot.players.map SnapshotPlayer.tableSeat),
            snapshot.players.map fun p => playerOf p.link,
            TableActor.recorded e tableId snapshot move⟩ := by
        rw [TableActor.leftToStore, hsettles]
        rfl
      obtain ⟨newer, hhands, hentries⟩ := h.stored
      simp only [hunsaved, hleft, hsettled] at hbooks ⊢
      refine ⟨hbooks, h.holds, fun i seat hi => ?_, ?_, ?_, ?_, ?_, fun p => ?_⟩
      · obtain ⟨hi, -⟩ := TableInner.applyHandResult_seats.mp hi
        obtain ⟨stack, hstack⟩ := @TableInner.applyDeltas_map κ m i s.cashier.actor.inner.seats
          (rWithTableSeats r (snapshot.players.map SnapshotPlayer.tableSeat)).seats
        rw [hstack] at hi
        obtain ⟨before, hbefore, rfl⟩ := Option.map_eq_some_iff.mp hi
        exact h.linked i before hbefore
      · intro _ hnot
        cases hnot
      · intro hand hhand
        rcases List.mem_append.mp hhand with hhand | hhand
        · exact h.sound hand hhand
        · obtain rfl := List.mem_singleton.mp hhand
          exact hsound
      · intro hand hhand
        obtain rfl := Option.some.inj hhand
        refine ⟨hsound, fun row hrow id hid => ?_⟩
        obtain ⟨p, hp, rfl⟩ := player_of_mem_rowsOf hrow hid
        exact ((h.dealt snapshot hplaying).linked p hp).2
      · refine ⟨newer, hhands, ?_⟩
        rw [hunsaved] at hentries
        rw [List.map_append, ← hentries]
        simp
      · have hbefore := h.balanced p
        have hsum := hpaid p
        have hkept := @heldBy_add_takenBy κ m p
          (TableInner.applyDeltas s.cashier.actor.inner.seats
            (rWithTableSeats r (snapshot.players.map SnapshotPlayer.tableSeat)).seats)
          (s.cashier.actor.inner.applyHandResult
            (rWithTableSeats r (snapshot.players.map SnapshotPlayer.tableSeat))).seats
          fun i seat hi => by
            rw [(TableInner.applyHandResult_seats.mp hi).1]
            rfl
        have hwon : wonBy p (rowsOf playerOf snapshot r) = wonBy p (SettledHand.mk
            (rWithTableSeats r (snapshot.players.map SnapshotPlayer.tableSeat))
            (snapshot.players.map fun p => playerOf p.link)
            (TableActor.recorded e tableId snapshot move)).rows := rfl
        simp only [hbought, List.map_append, List.sum_append, Option.toList_some, List.map_cons,
          List.map_nil, List.sum_cons, List.sum_nil, ← hwon]
        push_cast
        omega
    | @changed op inner hop hchange =>
      have hnone : s.cashier.actor.settles e tableId (.op op) = none := by
        cases op with
        | actor actorOp => exact absurd rfl (hop actorOp)
        | _ => rfl
      have hsession := sessionChange_of_step hop hmove
      have hseating : s.cashier.actor.seatingAfter s.cashier.seating (.op op) =
          s.cashier.seating := by
        cases op with
        | actor actorOp => exact absurd rfl (hop actorOp)
        | _ => rfl
      refine h.of_unsettled hbooks hnone (linked_of_sessionChange hsession hadmits h.linked)
        (fun snapshot hplaying => ?_) fun p => heldBy_of_sessionChange p hsession
      rw [hseating]
      exact h.dealt snapshot hplaying
    | claimed hquorum =>
      obtain ⟨-, -, rfl⟩ := TableInner.tryQuorum_eq_some.mp hquorum
      exact h.of_unsettled hbooks rfl h.linked (fun _ hnot => by cases hnot) fun _ =>
        heldBy_self
    | lost hready =>
      exact h.of_unsettled hbooks rfl h.linked (fun _ hnot => by cases hnot) fun _ =>
        heldBy_self
    | began hready hquorum =>
      refine h.of_unsettled hbooks rfl h.linked (fun snapshot hplaying => ?_) fun _ =>
        heldBy_self
      obtain rfl := ActorPhase.playing.inj hplaying
      refine ⟨ascending_eligible config _, fun p hp => ?_⟩
      obtain ⟨seat, hseat, hlink⟩ := link_of_mem_eligible hp
      obtain ⟨hplayer, hknown⟩ := h.linked p.tableSeat seat hseat
      rw [← hlink, hplayer]
      exact ⟨congrArg (Option.map Seat.playerId) hseat, hknown⟩
    | resumed hlost =>
      exact h.of_unsettled hbooks rfl h.linked (fun _ hnot => by cases hnot) fun _ =>
        heldBy_self

/-- Every step keeps the history. -/
theorem Till.Kept.step (h : s.Kept playerOf frames tableId config older)
    (hseats : 2 ≤ config.minSeats) (hblind : 0 < config.bigBlind) (hrules : 0 < e.rules.bigBlind)
    {move : TillMove κ} (hadmits : s.Admits playerOf tableId move)
    (hstep : s.step e playerOf sessionOf frames tableId config move = some t) :
    t.Kept playerOf frames tableId config older := by
  cases move with
  | table move => exact h.moveTable hseats hblind hrules hadmits hstep
  | persist startedAt endedAt => exact h.persistHand hstep
  | elsewhere call =>
    obtain rfl := Option.some.inj hstep
    refine h.elsewhere ?_
    rintro hand rfl
    exact hadmits

end Steps

theorem Till.kept_new {playerOf : κ → ℕ} {frames : List EngineEvent → List UInt8} {tableId : ℕ}
    {config : TableConfig} {store : HandStore} {a : Archive} (h : store.Holds a) :
    Till.Kept playerOf frames tableId config (store.handsOf tableId) (.new store : Till κ m) where
  books := booksBalance_new config
  holds := ⟨a, h⟩
  linked i seat hi := by cases hi
  dealt snapshot hplaying := by cases hplaying
  sound hand hhand := by cases hhand
  unsaved hand hhand := by cases hhand
  stored := ⟨[], (List.append_nil _).symm, rfl⟩
  balanced p := by simp [Till.new, Cashier.new, TableActor.new, TableInner.new, heldBy]

/-! ## Every run -/

/-- The hands of the table in the store are those that were there before and, in order, those
settled since, but for the last one while it is still to be stored. They account for the chips
of every player. -/
structure Till.Accounted (frames : List EngineEvent → List UInt8) (tableId : ℕ)
    (older : List HandRecord) (s : Till κ m) : Prop where
  stored : ∃ newer, s.store.handsOf tableId = older ++ newer ∧
    newer.map HandRecord.entry ++ s.unsaved.toList.map (SettledHand.entry frames) =
      s.settled.map (SettledHand.entry frames) ∧
    ∀ p, (s.boughtIn p : ℤ) + (newer.map fun record => wonBy p record.seats).sum +
        (s.unsaved.toList.map fun hand => wonBy p hand.rows).sum =
      heldBy p s.cashier.actor.inner.seats + s.taken p
  sound : ∀ hand ∈ s.settled, hand.Sound

/-- In every run of a table for at least two, with a big blind and without overflow, every hand
that is settled is stored next, once and in order, whoever comes and goes and whatever the
other tables store in between. Its rows cancel and agree with its log; and what a player has
bought in for and has won by the stored hands is what the player has or has taken away. -/
theorem hand_history_accounts (e : Engine) (playerOf : κ → ℕ) (sessionOf : κ → ℤ)
    (frames : List EngineEvent → List UInt8) (tableId : ℕ) (config : TableConfig)
    (hseats : 2 ≤ config.minSeats) (hblind : 0 < config.bigBlind) (hrules : 0 < e.rules.bigBlind)
    (calls : List HandCall) {moves : List (TillMove κ)} {s : Till κ m}
    (hrun : Till.Runs e playerOf sessionOf frames tableId config
      (.new (HandStore.migrated.after calls)) moves s) :
    s.Accounted frames tableId ((HandStore.migrated.after calls).handsOf tableId) := by
  have hkept := hrun.invariant
    (Till.Kept playerOf frames tableId config ((HandStore.migrated.after calls).handsOf tableId))
    (fun _ _ _ h hstep => h.step hseats hblind hrules hstep.1 hstep.2)
    (Till.kept_new (HandStore.Holds.migrated.run calls).2)
  obtain ⟨newer, hhands, hentries⟩ := hkept.stored
  refine ⟨⟨newer, hhands, hentries, fun p => ?_⟩, hkept.sound⟩
  -- what is won in a hand depends on its rows only
  have hrows := congrArg (fun entries : List (List UInt8 × List HandSeatRecord) =>
    (entries.map fun entry => wonBy p entry.2).sum) hentries
  simp only [List.map_append, List.map_map, List.sum_append, Function.comp_def, HandRecord.entry,
    SettledHand.entry] at hrows
  have hbalanced := hkept.balanced p
  omega

/-- A hand is settled, somebody takes the seat of the player who has left, and another table
stores a hand, before this one is stored. -/
def handBetweenPlayers : List (TillMove ℤ) :=
  [.elsewhere (.addUser 1), .elsewhere (.addUser 2), .elsewhere (.addUser 3),
    .table (.op (.sit 1 "ann" 1 20)), .table (.op (.sit 2 "bob" 2 30)),
    .table (.op (.actor .quorum)), .table (.op (.actor .snapshot)), .table (.op (.leave 1)),
    .table (.op (.actor (.finish (fun i => ⟨i⟩) [.fold]))), .table (.op (.sit 3 "cleo" 3 40)),
    .elsewhere (.recordHand ⟨7, 90, 95, [], [⟨0, some 3, 5, false⟩, ⟨1, none, -5, false⟩]⟩),
    .persist 91 96]

/-- The till of a table for two after these moves, if all of them are admitted. -/
def twoSeatTill (moves : List (TillMove ℤ)) : Option (Till ℤ 2) :=
  moves.foldlM (fun (s : Till ℤ 2) move => if s.Admits Int.toNat 1 move then
    s.step headsUpEngine Int.toNat id (fun _ => []) 1 headsUpTable move else none)
    (.new HandStore.migrated)

theorem hand_history_accounts_between_players :
    ∃ s, twoSeatTill handBetweenPlayers = some s ∧ s.store.countHands = 2 ∧ s.taken 1 = 21 ∧
      heldBy 2 s.cashier.actor.inner.seats = 29 ∧ heldBy 3 s.cashier.actor.inner.seats = 40 ∧
      s.Accounted (fun _ => []) 1 [] := by
  have hrun : (twoSeatTill handBetweenPlayers).any fun s => s.store.countHands = 2 ∧
      s.taken 1 = 21 ∧ heldBy 2 s.cashier.actor.inner.seats = 29 ∧
      heldBy 3 s.cashier.actor.inner.seats = 40 := by
    decide +kernel
  obtain ⟨s, hs, htest⟩ := (Option.any_eq_true _ _).mp hrun
  obtain ⟨hcount, htaken, hbob, hcleo⟩ := of_decide_eq_true htest
  exact ⟨s, hs, hcount, htaken, hbob, hcleo, hand_history_accounts headsUpEngine Int.toNat id
    (fun _ => []) 1 headsUpTable (by decide) (by decide) (by decide) [] (.of_foldlM_ite hs)⟩

end VibePoker.Server
