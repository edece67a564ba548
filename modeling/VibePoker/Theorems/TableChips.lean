import VibePoker.Server.Cashier
import VibePoker.Theorems.Conservation
import VibePoker.Theorems.Quorum

/-!
# Chips at a table

A hand is played from a snapshot, while players come and go. Nobody's seat is vacated while
a hand runs, so its deltas find the players who played it, with the stacks they were dealt
in with: the chips of a table are its buy-ins, less the stacks of the seats vacated.

## Main definitions

* `HandSettled` — each delta is added to the seat of its player, and exactly the seats that
  leave or are busted are vacated
* `Accountable` — the chips of a table, and what any next move does with them

## Main results

* `table_chips_conserved` — every run of a table
-/

namespace VibePoker.Server

open VibePoker.Core VibePoker.Game VibePoker.Net VibePoker.CS

variable {κ : Type*} {m : ℕ}

/-! ## The statement -/

/-- No seat can win `2 ^ 31` chips in the hand that runs, so that its deltas fit 32 bits. -/
def TableActor.NoOverflow (a : TableActor κ m) : Prop :=
  match a.phase with
  | .playing snapshot => ∀ i, ∑ j ∈ Finset.univ.erase i,
      (snapshot.players.map SnapshotPlayer.stack).get j < 2 ^ 31
  | _ => True

instance decidableNoOverflow : ∀ a : TableActor κ m, Decidable a.NoOverflow
  | ⟨_, .playing _⟩ => @Nat.decidableForallFin _ _ fun _ => Nat.decLt _ _
  | ⟨_, .waiting⟩ => instDecidableTrue
  | ⟨_, .ready⟩ => instDecidableTrue
  | ⟨_, .lost⟩ => instDecidableTrue

/-- The hand is settled with the players who played it. -/
structure HandSettled (s : Cashier κ m) (snapshot : RunningSnapshot κ m) (r : HandResult)
    (t : TableActor κ m) : Prop where
  /-- Each player of the hand is still at the seat and has the stack it began with. -/
  seated : ∀ p ∈ snapshot.players, ∃ seat, s.actor.inner.seats p.tableSeat = some seat ∧
    s.seating p.tableSeat = some seat.playerId ∧ seat.stack = p.stack
  /-- Each outcome is that of one player. -/
  reported : (r.seats.map SeatOutcome.seat).Nodup ∧
    ∀ o ∈ r.seats, o.seat < snapshot.players.length
  unclamped : ∀ i seat, s.actor.inner.seats i = some seat →
    0 ≤ (seat.stack : ℤ) + deltaAt snapshot r i
  /-- A seat gets its delta, and is vacated if it leaves or has nothing left. -/
  seats_eq : ∀ i seat, s.actor.inner.seats i = some seat →
    t.inner.seats i =
      if seat.leavePending ∨ (seat.stack : ℤ) + deltaAt snapshot r i = 0 then none
      else some { seat with stack := ((seat.stack : ℤ) + deltaAt snapshot r i).toNat }
  empty : ∀ i, s.actor.inner.seats i = none → t.inner.seats i = none
  /-- A hand without outcomes, as after a panic, leaves the stacks as they are. -/
  panicked : r.seats = [] → ∀ i seat, s.actor.inner.seats i = some seat →
    t.inner.seats i = if seat.leavePending ∨ seat.stack = 0 then none else some seat

/-- Seats keep their players and stacks, and their marks; only between hands some are
vacated. -/
def SeatsStay (a b : TableInner κ m) : Prop :=
  ∀ i seat, a.seats i = some seat →
    (a.handInProgress = false ∧ b.seats i = none) ∨
      ∃ seat', b.seats i = some seat' ∧ seat'.playerId = seat.playerId ∧
        seat'.stack = seat.stack ∧ (seat.leavePending → seat'.leavePending)

/-- The chips of a table are accounted for, and no next move gets them wrong. -/
structure Accountable (e : Engine) (sessionOf : κ → ℤ) (tableId : ℕ) (config : TableConfig)
    (s : Cashier κ m) : Prop where
  balanced : tableStacks s.actor.inner.seats + s.removed = s.boughtIn
  settled : s.actor.NoOverflow → ∀ move t,
    s.actor.move e sessionOf tableId config move = some t →
    ∀ snapshot r, s.actor.settles e tableId move = some (snapshot, r) →
      HandSettled s snapshot r t
  stays : ∀ move t, s.actor.move e sessionOf tableId config move = some t →
    s.actor.settles e tableId move = none → SeatsStay s.actor.inner t.inner

/-! ## What the sessions do -/

/-- What a session can do to a table, with the chips that it brings. -/
inductive SeatChange (a : TableInner κ m) : ℕ → TableInner κ m → Prop
  | same : SeatChange a 0 a
  | sat {i : Fin m} (hfree : a.seats i = none) (seat : Seat κ) :
      SeatChange a seat.stack (a.setSeat i (some seat))
  | released (i : Fin m) : SeatChange a 0 (a.release i)
  | spliced {i : Fin m} {seat : Seat κ} (hseat : a.seats i = some seat) (link : κ) :
      SeatChange a 0 (a.setSeat i (some { seat with link := link }))

namespace SeatChange

variable {a b : TableInner κ m} {bought : ℕ}

theorem handInProgress_eq (h : SeatChange a bought b) : b.handInProgress = a.handInProgress := by
  cases h with
  | released i => exact TableInner.release_handInProgress
  | _ => rfl

theorem stays (h : SeatChange a bought b) : SeatsStay a b := by
  intro j seat hj
  cases h with
  | same => exact Or.inr ⟨seat, hj, rfl, rfl, id⟩
  | @sat i hfree other =>
    have hne : j ≠ i := by
      rintro rfl
      rw [hfree] at hj
      cases hj
    exact Or.inr ⟨seat, (TableInner.setSeat_seats_of_ne _ hne).trans hj, rfl, rfl, id⟩
  | released i =>
    by_cases hji : j = i
    · subst hji
      rw [TableInner.release_seats_self, hj]
      cases hhand : a.handInProgress with
      | false => exact Or.inl ⟨rfl, rfl⟩
      | true => exact Or.inr ⟨_, rfl, rfl, rfl, fun _ => rfl⟩
    · exact Or.inr ⟨seat, (TableInner.release_seats_of_ne hji).trans hj, rfl, rfl, id⟩
  | @spliced i other hother link =>
    by_cases hji : j = i
    · subst hji
      obtain rfl := Option.some.inj (hj.symm.trans hother)
      exact Or.inr ⟨_, TableInner.setSeat_seats_self _, rfl, rfl, id⟩
    · exact Or.inr ⟨seat, (TableInner.setSeat_seats_of_ne _ hji).trans hj, rfl, rfl, id⟩

/-- The chips at the table and those taken away are those before and those brought. -/
theorem balanced (h : SeatChange a bought b) :
    tableStacks b.seats + vacated a.seats b.seats = tableStacks a.seats + bought := by
  cases h with
  | same => exact tableStacks_add_vacated fun i seat hseat => by rw [chipsAt, hseat]; rfl
  | @sat i hfree seat =>
    have hsum : tableStacks (a.setSeat i (some seat)).seats + chipsAt a.seats i =
        tableStacks a.seats + chipsAt (a.setSeat i (some seat)).seats i :=
      tableStacks_of_eq fun j hj => TableInner.setSeat_seats_of_ne _ hj
    -- sitting down vacates no seat, and brings the buy-in
    have hnone : vacated a.seats (a.setSeat i (some seat)).seats = 0 := by
      refine Finset.sum_eq_zero fun j _ => ?_
      by_cases hji : j = i
      · rw [hji, TableInner.setSeat_seats_self]
        rfl
      · rw [TableInner.setSeat_seats_of_ne _ hji]
        cases hj : a.seats j <;> simp [chipsAt, hj]
    rw [chipsAt, chipsAt, hfree, TableInner.setSeat_seats_self] at hsum
    rw [hnone]
    exact hsum
  | released i =>
    refine tableStacks_add_vacated fun j seat hj => ?_
    obtain ⟨before, hbefore, rfl | ⟨-, rfl⟩⟩ := TableInner.release_seats hj
    · rw [chipsAt, hbefore]
      rfl
    · rw [chipsAt, hbefore]
      rfl
  | @spliced i seat hseat link =>
    refine tableStacks_add_vacated fun j other hj => ?_
    by_cases hji : j = i
    · subst hji
      rw [TableInner.setSeat_seats_self] at hj
      obtain rfl := Option.some.inj hj
      rw [chipsAt, hseat]
      rfl
    · rw [TableInner.setSeat_seats_of_ne _ hji] at hj
      rw [chipsAt, hj]
      rfl

end SeatChange

section Moves

variable {e : Engine} {sessionOf : κ → ℤ} {tableId : ℕ} {config : TableConfig}
  {a b : TableActor κ m}

/-- The operations of the sessions change the seats behind the actor's back. -/
theorem seatChange_of_step {op : TableOp κ} (hop : ∀ actorOp, op ≠ .actor actorOp)
    (h : a.step e sessionOf tableId config op = some b) :
    ∃ inner, b = { a with inner := inner } ∧
      SeatChange a.inner (a.buyIn config (.op op)) inner := by
  cases op with
  | sit playerId username link buyIn =>
    simp only [TableActor.step] at h
    split at h
    · rename_i i inner hsit
      obtain rfl := Option.some.inj h
      refine ⟨inner, rfl, ?_⟩
      rw [TableActor.buyIn, hsit]
      obtain ⟨-, -, hfree, rfl⟩ := TableInner.sit_eq_ok hsit
      exact .sat hfree ⟨playerId, username, buyIn, link, false⟩
    · rename_i reason hsit
      obtain rfl := Option.some.inj h
      refine ⟨a.inner, rfl, ?_⟩
      rw [TableActor.buyIn, hsit]
      exact .same
  | leave playerId =>
    simp only [TableActor.step] at h
    split at h
    · rename_i inner hleave
      obtain ⟨i, -, rfl⟩ := TableInner.leave_eq_ok hleave
      exact ⟨_, (Option.some.inj h).symm, .released i⟩
    · exact ⟨a.inner, (Option.some.inj h).symm, .same⟩
  | forceLeave playerId sessionId =>
    refine ⟨_, (Option.some.inj h).symm, ?_⟩
    rcases TableInner.forceLeave_cases sessionOf a.inner playerId sessionId with
      hsame | ⟨i, seat, -, -, -, hrelease⟩
    · rw [hsame]
      exact .same
    · rw [hrelease]
      exact .released i
  | reconnect playerId link =>
    simp only [TableActor.step] at h
    split at h
    · rename_i i inner hreconnect
      obtain ⟨seat, -, hseat, rfl⟩ := TableInner.reconnectPlayer_eq_some hreconnect
      exact ⟨_, (Option.some.inj h).symm, .spliced hseat link⟩
    · exact ⟨a.inner, (Option.some.inj h).symm, .same⟩
  | actor actorOp => exact absurd rfl (hop actorOp)

end Moves

/-! ## What the engine reports -/

/-- The outcomes of a hand are those of different players of the snapshot, who can pay
them, and they cancel. -/
structure Reports (snapshot : RunningSnapshot κ m) (r : HandResult) : Prop where
  nodup : (r.seats.map SeatOutcome.seat).Nodup
  pays : ∀ o ∈ r.seats, ∃ p, snapshot.players[o.seat]? = some p ∧ 0 ≤ (p.stack : ℤ) + o.chipDelta
  sum_eq : (r.seats.map SeatOutcome.chipDelta).sum = 0

theorem Reports.panicked (snapshot : RunningSnapshot κ m) (handId : ℕ) :
    Reports snapshot ⟨handId, [], []⟩ where
  nodup := List.nodup_nil
  pays o ho := by cases ho
  sum_eq := rfl

theorem Reports.player {snapshot : RunningSnapshot κ m} {r : HandResult} (h : Reports snapshot r) :
    ∀ o ∈ r.seats, ∃ p, snapshot.players[o.seat]? = some p := by
  intro o ho
  obtain ⟨p, hp, -⟩ := h.pays o ho
  exact ⟨p, hp⟩

theorem fundedSeats_of_forall {startingStacks : List ℕ} (h : ∀ stack ∈ startingStacks, 0 < stack) :
    fundedSeats startingStacks = startingStacks.length :=
  List.countP_eq_length.mpr fun stack hstack => decide_eq_true (h stack hstack)

/-- The engine conserves the chips of a hand. -/
theorem reports_of_handResult {e : Engine} {tableId : ℕ} {order : Fin 52 → Card}
    {snapshot : RunningSnapshot κ m} {answers : List Action} {r : HandResult}
    (hblind : 0 < e.rules.bigBlind) (hseats : 2 ≤ snapshot.players.length)
    (hfunded : ∀ p ∈ snapshot.players, 0 < p.stack)
    (hfits : ∀ i, ∑ j ∈ Finset.univ.erase i,
      (snapshot.players.map SnapshotPlayer.stack).get j < 2 ^ 31)
    (h : handResult? e tableId order snapshot answers = some r) : Reports snapshot r := by
  have htwo : 2 ≤ fundedSeats (snapshot.players.map SnapshotPlayer.stack) := by
    rw [fundedSeats_of_forall, List.length_map]
    · exact hseats
    · intro stack hstack
      obtain ⟨p, hp, rfl⟩ := List.mem_map.mp hstack
      exact hfunded p hp
  rw [handResult?] at h
  split at h
  case h_1 result players chipDeltas rest hfinished =>
    obtain rfl := Option.some.inj h
    obtain ⟨hsum, hpays, -⟩ := conservesChips_of_covered htwo hfits
      (fun p _ _ => Or.inl hblind) _ _ _ _ hfinished
    refine ⟨nodup_of_finished hfinished, fun o ho => ?_, hsum⟩
    obtain ⟨i, hi, hlow⟩ := hpays o ho
    obtain ⟨p, hp, hstack⟩ := player_of_stack i
    refine ⟨p, by rw [hi, hp], ?_⟩
    rw [← hstack] at hlow
    omega
  case h_2 =>
    obtain rfl := Option.some.inj h
    exact .panicked snapshot _
  case h_3 => cases h
  case h_4 => cases h

/-! ## What reaches the seats -/

section Settling

variable {snapshot : RunningSnapshot κ m} {r : HandResult}

/-- Two players of a snapshot do not share a seat. -/
theorem player_eq_of_tableSeat (hnodup : (snapshot.players.map SnapshotPlayer.tableSeat).Nodup)
    {j k : ℕ} {p q : SnapshotPlayer κ m} (hp : snapshot.players[j]? = some p)
    (hq : snapshot.players[k]? = some q) (heq : p.tableSeat = q.tableSeat) : j = k := by
  have hlt : j < (snapshot.players.map SnapshotPlayer.tableSeat).length := by
    rw [List.length_map]
    exact (List.getElem?_eq_some_iff.mp hp).1
  refine (List.getElem?_inj hlt hnodup).mp ?_
  rw [List.getElem?_map, List.getElem?_map, hp, hq, Option.map_some, Option.map_some, heq]

/-- The delta of the seat of a player is the one that the engine reports for the player. -/
theorem deltaAt_of_mem (h : Reports snapshot r)
    (hnodup : (snapshot.players.map SnapshotPlayer.tableSeat).Nodup) {o : SeatOutcome}
    (ho : o ∈ r.seats) {p : SnapshotPlayer κ m} (hp : snapshot.players[o.seat]? = some p) :
    deltaAt snapshot r p.tableSeat = o.chipDelta := by
  rw [deltaAt]
  cases hfind : r.seats.find? fun o => (snapshot.players[o.seat]?).any fun q =>
      q.tableSeat = p.tableSeat with
  | none =>
    have hmiss := List.find?_eq_none.mp hfind o ho
    simp [hp] at hmiss
  | some o' =>
    have hfound := List.find?_some hfind
    obtain ⟨q, hq, hseat⟩ := (Option.any_eq_true _ _).mp hfound
    have hsame := player_eq_of_tableSeat hnodup hq hp (of_decide_eq_true hseat)
    obtain rfl := List.inj_on_of_nodup_map h.nodup (List.mem_of_find?_eq_some hfind) ho hsame
    rfl

/-- Nothing is reported for the other seats. -/
theorem deltaAt_of_notMem {i : Fin m}
    (h : ∀ o ∈ r.seats, ∀ p, snapshot.players[o.seat]? = some p → p.tableSeat ≠ i) :
    deltaAt snapshot r i = 0 := by
  rw [deltaAt, List.find?_eq_none.mpr]
  · rfl
  · intro o ho hany
    obtain ⟨p, hp, hseat⟩ := (Option.any_eq_true _ _).mp hany
    exact h o ho p hp (of_decide_eq_true hseat)

/-- The outcome of a player, with the seat renamed. -/
theorem mem_rWithTableSeats {o : SeatOutcome} (ho : o ∈ r.seats) {p : SnapshotPlayer κ m}
    (hp : snapshot.players[o.seat]? = some p) :
    { o with seat := p.tableSeat } ∈
      (rWithTableSeats r (snapshot.players.map SnapshotPlayer.tableSeat)).seats := by
  refine List.mem_map.mpr ⟨o, ho, ?_⟩
  simp [hp]

section Renamed

variable (hplayers : ∀ o ∈ r.seats, ∃ p, snapshot.players[o.seat]? = some p)
include hplayers

/-- Every outcome of the table is that of a player. -/
theorem exists_of_mem_rWithTableSeats {o : SeatOutcome}
    (ho : o ∈ (rWithTableSeats r (snapshot.players.map SnapshotPlayer.tableSeat)).seats) :
    ∃ o₀ ∈ r.seats, ∃ p, snapshot.players[o₀.seat]? = some p ∧
      o = { o₀ with seat := p.tableSeat } := by
  obtain ⟨o₀, ho₀, rfl⟩ := List.mem_map.mp ho
  obtain ⟨p, hp⟩ := hplayers o₀ ho₀
  refine ⟨o₀, ho₀, p, hp, ?_⟩
  simp [hp]

/-- Different players have different seats at the table too. -/
theorem nodup_rWithTableSeats (hreported : (r.seats.map SeatOutcome.seat).Nodup)
    (hnodup : (snapshot.players.map SnapshotPlayer.tableSeat).Nodup) :
    ((rWithTableSeats r (snapshot.players.map SnapshotPlayer.tableSeat)).seats.map
      SeatOutcome.seat).Nodup := by
  rw [rWithTableSeats, List.map_map]
  refine List.Nodup.map_on ?_ (List.Nodup.of_map _ hreported)
  intro o ho o' ho' heq
  obtain ⟨p, hp⟩ := hplayers o ho
  obtain ⟨q, hq⟩ := hplayers o' ho'
  simp only [Function.comp_apply, List.getElem?_map, hp, hq, Option.map_some] at heq
  exact List.inj_on_of_nodup_map hreported ho ho'
    (player_eq_of_tableSeat hnodup hp hq (Fin.ext heq))

end Renamed

theorem sum_rWithTableSeats (h : Reports snapshot r) :
    ((rWithTableSeats r (snapshot.players.map SnapshotPlayer.tableSeat)).seats.map
      SeatOutcome.chipDelta).sum = 0 := by
  rw [← h.sum_eq, rWithTableSeats, List.map_map]
  refine congrArg List.sum (List.map_congr_left fun o _ => ?_)
  simp only [Function.comp_apply]
  split <;> rfl

/-- Every player is at its seat, with the stack it began with. -/
def PlayersSeated (snapshot : RunningSnapshot κ m) (seats : Fin m → Option (Seat κ)) : Prop :=
  ∀ p ∈ snapshot.players, ∃ seat, seats p.tableSeat = some seat ∧ seat.stack = p.stack

variable {seats : Fin m → Option (Seat κ)} {i : Fin m} {seat : Seat κ}

/-- No seat has to pay more than it has. -/
theorem unclamped_of_reports (h : Reports snapshot r)
    (hnodup : (snapshot.players.map SnapshotPlayer.tableSeat).Nodup)
    (hseated : PlayersSeated snapshot seats) (hi : seats i = some seat) :
    0 ≤ (seat.stack : ℤ) + deltaAt snapshot r i := by
  by_cases hplays : ∃ o ∈ r.seats, ∃ p, snapshot.players[o.seat]? = some p ∧ p.tableSeat = i
  · obtain ⟨o, ho, p, hp, rfl⟩ := hplays
    obtain ⟨other, hother, hstack⟩ := hseated p (List.mem_of_getElem? hp)
    obtain rfl := Option.some.inj (hi.symm.trans hother)
    obtain ⟨q, hq, hpays⟩ := h.pays o ho
    obtain rfl := Option.some.inj (hp.symm.trans hq)
    rw [deltaAt_of_mem h hnodup ho hp, hstack]
    exact hpays
  · rw [deltaAt_of_notMem fun o ho p hp hseat => hplays ⟨o, ho, p, hp, hseat⟩]
    omega

/-- Each seat gets the delta that is reported for its player. -/
theorem applyDeltas_of_reports (h : Reports snapshot r)
    (hnodup : (snapshot.players.map SnapshotPlayer.tableSeat).Nodup) (hi : seats i = some seat) :
    TableInner.applyDeltas seats
        (rWithTableSeats r (snapshot.players.map SnapshotPlayer.tableSeat)).seats i =
      some { seat with stack := ((seat.stack : ℤ) + deltaAt snapshot r i).toNat } := by
  by_cases hplays : ∃ o ∈ r.seats, ∃ p, snapshot.players[o.seat]? = some p ∧ p.tableSeat = i
  · obtain ⟨o, ho, p, hp, rfl⟩ := hplays
    rw [TableInner.applyDeltas_of_nodup (nodup_rWithTableSeats h.player h.nodup hnodup)
      (mem_rWithTableSeats ho hp) rfl, hi, deltaAt_of_mem h hnodup ho hp]
    rfl
  · rw [TableInner.applyDeltas_of_notMem, hi,
      deltaAt_of_notMem fun o ho p hp hseat => hplays ⟨o, ho, p, hp, hseat⟩]
    · simp
    · intro o ho hseat
      obtain ⟨o₀, ho₀, p, hp, rfl⟩ := exists_of_mem_rWithTableSeats h.player ho
      exact hplays ⟨o₀, ho₀, p, hp, Fin.ext hseat⟩

/-- Settling a hand moves chips between the seats only. -/
theorem tableStacks_of_reports (h : Reports snapshot r)
    (hnodup : (snapshot.players.map SnapshotPlayer.tableSeat).Nodup)
    (hseated : PlayersSeated snapshot seats) :
    tableStacks (TableInner.applyDeltas seats
        (rWithTableSeats r (snapshot.players.map SnapshotPlayer.tableSeat)).seats) =
      tableStacks seats := by
  have hsum := @TableInner.tableStacks_applyDeltas κ m seats _
    (nodup_rWithTableSeats h.player h.nodup hnodup) fun o ho => by
      obtain ⟨o₀, ho₀, p, hp, rfl⟩ := exists_of_mem_rWithTableSeats h.player ho
      obtain ⟨seat, hseat, hstack⟩ := hseated p (List.mem_of_getElem? hp)
      obtain ⟨q, hq, hpays⟩ := h.pays o₀ ho₀
      obtain rfl := Option.some.inj (hp.symm.trans hq)
      exact ⟨p.tableSeat, seat, rfl, hseat, by rw [hstack]; exact hpays⟩
  rw [sum_rWithTableSeats h] at hsum
  omega

end Settling

/-! ## What every run keeps -/

/-- What is known while the hand of a snapshot runs. -/
structure InHand (config : TableConfig) (s : Cashier κ m) (snapshot : RunningSnapshot κ m) :
    Prop where
  quorum : config.minSeats ≤ snapshot.players.length
  nodup : (snapshot.players.map SnapshotPlayer.tableSeat).Nodup
  funded : ∀ p ∈ snapshot.players, config.bigBlind ≤ p.stack
  seated : ∀ p ∈ snapshot.players, ∃ seat, s.actor.inner.seats p.tableSeat = some seat ∧
    s.seating p.tableSeat = some seat.playerId ∧ seat.stack = p.stack

/-- The invariant of the runs of a table. -/
structure BooksBalance (config : TableConfig) (s : Cashier κ m) : Prop where
  balanced : tableStacks s.actor.inner.seats + s.removed = s.boughtIn
  busy : s.actor.inner.handInProgress = false → s.actor.phase = .waiting
  inHand : ∀ snapshot, s.actor.phase = .playing snapshot → InHand config s snapshot

theorem booksBalance_new (config : TableConfig) : BooksBalance config (.new : Cashier κ m) where
  balanced := by simp [Cashier.new, TableActor.new, TableInner.new, tableStacks, chipsAt]
  busy _ := rfl
  inHand snapshot h := by cases h

/-- The players of a snapshot sit at different seats. -/
theorem nodup_eligible (config : TableConfig) (inner : TableInner κ m) :
    ((inner.eligible config).map SnapshotPlayer.tableSeat).Nodup := by
  have hseat : ∀ i k : Fin m, k ∈ ((inner.seats i).bind fun seat =>
      if seat.stack < config.bigBlind then none
      else some (⟨i, seat.stack, seat.link⟩ : SnapshotPlayer κ m)).map SnapshotPlayer.tableSeat →
      k = i := by
    intro i k hk
    obtain ⟨p, hp, rfl⟩ := Option.map_eq_some_iff.mp hk
    obtain ⟨seat, -, hp⟩ := Option.bind_eq_some_iff.mp hp
    split at hp
    · cases hp
    · rw [← Option.some.inj hp]
  rw [TableInner.eligible, List.map_filterMap]
  exact (List.nodup_finRange m).filterMap fun i j k hi hj =>
    (hseat i k hi).symm.trans (hseat j k hj)

theorem mem_eligible {config : TableConfig} {inner : TableInner κ m} {p : SnapshotPlayer κ m}
    (h : p ∈ inner.eligible config) : ∃ seat, inner.seats p.tableSeat = some seat ∧
      seat.stack = p.stack ∧ config.bigBlind ≤ p.stack := by
  obtain ⟨i, -, hi⟩ := List.mem_filterMap.mp h
  obtain ⟨seat, hseat, hp⟩ := Option.bind_eq_some_iff.mp hi
  split at hp
  · cases hp
  · rename_i hblind
    obtain rfl := Option.some.inj hp
    exact ⟨seat, hseat, rfl, Nat.le_of_not_lt hblind⟩

theorem InHand.playersSeated {config : TableConfig} {s : Cashier κ m}
    {snapshot : RunningSnapshot κ m} (h : InHand config s snapshot) :
    PlayersSeated snapshot s.actor.inner.seats := by
  intro p hp
  obtain ⟨seat, hseat, -, hstack⟩ := h.seated p hp
  exact ⟨seat, hseat, hstack⟩

/-- Nothing that leaves the seats of a running hand disturbs it. -/
theorem InHand.of_stay {config : TableConfig} {s t : Cashier κ m}
    {snapshot : RunningSnapshot κ m} (h : InHand config s snapshot)
    (hstay : SeatsStay s.actor.inner t.actor.inner)
    (hhand : s.actor.inner.handInProgress = true) (hseating : t.seating = s.seating) :
    InHand config t snapshot where
  quorum := h.quorum
  nodup := h.nodup
  funded := h.funded
  seated p hp := by
    obtain ⟨seat, hseat, hplayer, hstack⟩ := h.seated p hp
    rcases hstay _ _ hseat with ⟨hidle, -⟩ | ⟨seat', hseat', hsame, hchips, -⟩
    · rw [hhand] at hidle
      cases hidle
    · exact ⟨seat', hseat', by rw [hseating, hplayer, hsame], hchips.trans hstack⟩

section Steps

variable {e : Engine} {sessionOf : κ → ℤ} {tableId : ℕ} {config : TableConfig}
  {s t : Cashier κ m}

/-- What a move does: it settles the hand that runs, changes seats behind the actor's back,
or takes the actor on between hands. -/
inductive Moved (e : Engine) (tableId : ℕ) (config : TableConfig) (a : TableActor κ m) :
    TableMove κ → TableActor κ m → Prop
  | settled {move : TableMove κ} {snapshot : RunningSnapshot κ m} {r : HandResult}
      (hplaying : a.phase = .playing snapshot)
      (hsettles : a.settles e tableId move = some (snapshot, r))
      (hr : (∃ order answers, move = .op (.actor (.finish order answers)) ∧
          handResult? e tableId order snapshot answers = some r) ∨
        (move = .panic ∧ r = ⟨snapshot.handId, [], []⟩)) :
      Moved e tableId config a move ⟨a.inner.applyHandResult
        (rWithTableSeats r (snapshot.players.map SnapshotPlayer.tableSeat)), .waiting⟩
  | changed {op : TableOp κ} {inner : TableInner κ m} (hop : ∀ actorOp, op ≠ .actor actorOp)
      (hseats : SeatChange a.inner (a.buyIn config (.op op)) inner) :
      Moved e tableId config a (.op op) { a with inner := inner }
  | claimed {inner : TableInner κ m} (hquorum : a.inner.tryQuorum config = some inner) :
      Moved e tableId config a (.op (.actor .quorum)) ⟨inner, .ready⟩
  | lost (hready : a.phase = .ready) :
      Moved e tableId config a (.op (.actor .snapshot))
        ⟨(a.inner.takeRunningSnapshot config).2, .lost⟩
  | began (hready : a.phase = .ready)
      (hquorum : config.minSeats ≤ (a.inner.eligible config).length) :
      Moved e tableId config a (.op (.actor .snapshot))
        ⟨(a.inner.takeRunningSnapshot config).2, .playing (a.inner.takeRunningSnapshot config).1⟩
  | resumed (hlost : a.phase = .lost) :
      Moved e tableId config a (.op (.actor .resume))
        ⟨{ a.inner with handInProgress := false }, .waiting⟩

theorem moved_of_move {a b : TableActor κ m} {move : TableMove κ}
    (h : a.move e sessionOf tableId config move = some b) : Moved e tableId config a move b := by
  cases move with
  | panic =>
    simp only [TableActor.move] at h
    split at h
    · rename_i snapshot hplaying
      obtain rfl := Option.some.inj h
      exact .settled hplaying (by simp only [TableActor.settles, hplaying])
        (Or.inr ⟨rfl, rfl⟩)
    · cases h
  | op op =>
    by_cases hop : ∀ actorOp, op ≠ .actor actorOp
    · obtain ⟨inner, rfl, hseats⟩ := seatChange_of_step hop h
      exact .changed hop hseats
    · push Not at hop
      obtain ⟨actorOp, rfl⟩ := hop
      cases TableActor.actorStep_of_advance h with
      | claimed hfree hseated =>
        exact .claimed (TableInner.tryQuorum_eq_some.mpr ⟨hfree, hseated, rfl⟩)
      | lost hready => exact .lost hready
      | began hready hquorum => exact .began hready hquorum
      | resumed hlost => exact .resumed hlost
      | @finished order answers snapshot result hplaying hresult =>
        rw [runOneHand_eq] at hresult
        obtain ⟨r, hr, rfl⟩ := Option.map_eq_some_iff.mp hresult
        exact .settled hplaying (by simp only [TableActor.settles, hplaying, hr, Option.map_some])
          (Or.inl ⟨order, answers, rfl, hr⟩)

/-- A hand that is settled. -/
theorem BooksBalance.handSettled (h : BooksBalance config s) {snapshot : RunningSnapshot κ m}
    {r : HandResult} (hplaying : s.actor.phase = .playing snapshot) (hr : Reports snapshot r) :
    HandSettled s snapshot r ⟨s.actor.inner.applyHandResult
      (rWithTableSeats r (snapshot.players.map SnapshotPlayer.tableSeat)), .waiting⟩ := by
  have hhand := h.inHand snapshot hplaying
  have hseated := hhand.playersSeated
  have hsettled : ∀ i seat, s.actor.inner.seats i = some seat →
      (s.actor.inner.applyHandResult
        (rWithTableSeats r (snapshot.players.map SnapshotPlayer.tableSeat))).seats i =
        if seat.leavePending ∨ (seat.stack : ℤ) + deltaAt snapshot r i = 0 then none
        else some { seat with stack := ((seat.stack : ℤ) + deltaAt snapshot r i).toNat } := by
    intro i seat hi
    have hpays := unclamped_of_reports hr hhand.nodup hseated hi
    simp only [TableInner.applyHandResult, applyDeltas_of_reports hr hhand.nodup hi,
      Option.bind_some, TableInner.keep]
    refine if_congr (or_congr Iff.rfl ?_) rfl rfl
    omega
  refine ⟨hhand.seated, ⟨hr.nodup, fun o ho => ?_⟩, fun i seat hi =>
    unclamped_of_reports hr hhand.nodup hseated hi, hsettled, fun i hi => ?_,
    fun hnone i seat hi => ?_⟩
  · obtain ⟨p, hp, -⟩ := hr.pays o ho
    exact (List.getElem?_eq_some_iff.mp hp).1
  · obtain ⟨stack, hstack⟩ := @TableInner.applyDeltas_map κ m i s.actor.inner.seats
      (rWithTableSeats r (snapshot.players.map SnapshotPlayer.tableSeat)).seats
    simp only [TableInner.applyHandResult, hstack, hi]
    rfl
  · -- a hand that was not played reports no seat, and pays none
    have hdelta : deltaAt snapshot r i = 0 := deltaAt_of_notMem fun o ho => by
      rw [hnone] at ho
      cases ho
    rw [hsettled i seat hi, hdelta]
    simp

/-- The hand that a move settles has proper outcomes. -/
theorem BooksBalance.reports (h : BooksBalance config s) (hseats : 2 ≤ config.minSeats)
    (hblind : 0 < config.bigBlind) (hrules : 0 < e.rules.bigBlind)
    {snapshot : RunningSnapshot κ m} {r : HandResult}
    (hplaying : s.actor.phase = .playing snapshot) (hfits : s.actor.NoOverflow)
    {move : TableMove κ}
    (hr : (∃ order answers, move = .op (.actor (.finish order answers)) ∧
        handResult? e tableId order snapshot answers = some r) ∨
      (move = .panic ∧ r = ⟨snapshot.handId, [], []⟩)) : Reports snapshot r := by
  have hhand := h.inHand snapshot hplaying
  rcases hr with ⟨order, answers, -, hr⟩ | ⟨-, rfl⟩
  · rw [TableActor.NoOverflow, hplaying] at hfits
    exact reports_of_handResult hrules (hseats.trans hhand.quorum)
      (fun p hp => hblind.trans_le (hhand.funded p hp)) hfits hr
  · exact .panicked snapshot _

/-- Between hands the actor keeps all seats. -/
theorem seatsStay_of_eq {a b : TableInner κ m} (h : b.seats = a.seats) : SeatsStay a b :=
  fun i seat hi => Or.inr ⟨seat, by rw [h, hi], rfl, rfl, id⟩

theorem Moved.stays {a b : TableActor κ m} {move : TableMove κ}
    (h : Moved e tableId config a move b) (hnone : a.settles e tableId move = none) :
    SeatsStay a.inner b.inner := by
  cases h with
  | settled hplaying hsettles =>
    rw [hnone] at hsettles
    cases hsettles
  | changed hop hseats => exact hseats.stays
  | claimed hquorum =>
    obtain ⟨-, -, rfl⟩ := TableInner.tryQuorum_eq_some.mp hquorum
    exact seatsStay_of_eq rfl
  | lost | began | resumed => exact seatsStay_of_eq rfl

/-- A step of the actor that changes no seats. -/
theorem BooksBalance.of_same (h : BooksBalance config s) {actorOp : ActorOp} {a : TableActor κ m}
    (hseats : a.inner.seats = s.actor.inner.seats)
    (hbought : s.actor.buyIn config (.op (.actor actorOp)) = 0)
    (hsettled : s.actor.settledSeats e tableId (.op (.actor actorOp)) = s.actor.inner.seats)
    (hbusy : a.inner.handInProgress = false → a.phase = .waiting)
    (hinHand : ∀ snapshot, a.phase = .playing snapshot → InHand config
      { actor := a
        boughtIn := s.boughtIn + s.actor.buyIn config (.op (.actor actorOp))
        removed := s.removed +
          vacated (s.actor.settledSeats e tableId (.op (.actor actorOp))) a.inner.seats
        seating := s.actor.seatingAfter s.seating (.op (.actor actorOp)) } snapshot) :
    BooksBalance config
      { actor := a
        boughtIn := s.boughtIn + s.actor.buyIn config (.op (.actor actorOp))
        removed := s.removed +
          vacated (s.actor.settledSeats e tableId (.op (.actor actorOp))) a.inner.seats
        seating := s.actor.seatingAfter s.seating (.op (.actor actorOp)) } where
  balanced := by
    have := h.balanced
    simp only [hseats, hbought, hsettled, vacated_self]
    omega
  busy := hbusy
  inHand := hinHand

/-- Every move keeps the books balanced. -/
theorem BooksBalance.step (h : BooksBalance config s) (hseats : 2 ≤ config.minSeats)
    (hblind : 0 < config.bigBlind) (hrules : 0 < e.rules.bigBlind) {move : TableMove κ}
    (hfits : s.actor.NoOverflow)
    (hstep : s.step e sessionOf tableId config move = some t) : BooksBalance config t := by
  obtain ⟨a, hmove, rfl⟩ := Option.map_eq_some_iff.mp hstep
  have hbalanced := h.balanced
  have hmoved := moved_of_move hmove
  cases hmoved with
  | @settled _ snapshot r hplaying hsettles hr =>
    have hreports := h.reports hseats hblind hrules hplaying hfits hr
    have hhand := h.inHand snapshot hplaying
    have hbought : s.actor.buyIn config move = 0 := by
      rcases hr with ⟨order, answers, rfl, -⟩ | ⟨rfl, -⟩ <;> rfl
    have hsettled : s.actor.settledSeats e tableId move =
        TableInner.applyDeltas s.actor.inner.seats
          (rWithTableSeats r (snapshot.players.map SnapshotPlayer.tableSeat)).seats := by
      rw [TableActor.settledSeats, hsettles]
    have hmoved := tableStacks_of_reports hreports hhand.nodup hhand.playersSeated
    -- what is not kept of the settled seats is vacated
    have hkept := @tableStacks_add_vacated κ m
      (TableInner.applyDeltas s.actor.inner.seats
        (rWithTableSeats r (snapshot.players.map SnapshotPlayer.tableSeat)).seats)
      (s.actor.inner.applyHandResult
        (rWithTableSeats r (snapshot.players.map SnapshotPlayer.tableSeat))).seats
      fun i seat hi => by
        rw [chipsAt, (TableInner.applyHandResult_seats.mp hi).1]
        rfl
    refine ⟨?_, fun _ => rfl, fun snapshot h => by cases h⟩
    rw [hsettled, hbought]
    dsimp only
    omega
  | @changed op inner hop hseats =>
    have hnone : s.actor.settles e tableId (.op op) = none := by
      cases op with
      | actor actorOp => exact absurd rfl (hop actorOp)
      | _ => rfl
    have hseating : s.actor.seatingAfter s.seating (.op op) = s.seating := by
      cases op with
      | actor actorOp => exact absurd rfl (hop actorOp)
      | _ => rfl
    have hsame := hseats.balanced
    refine ⟨?_, ?_, fun snapshot hplaying => ?_⟩
    · simp only [TableActor.settledSeats, hnone]
      omega
    · intro hidle
      exact h.busy (hseats.handInProgress_eq.symm.trans hidle)
    · have hhand : s.actor.inner.handInProgress = true := by
        refine eq_true_of_ne_false fun hidle => ?_
        rw [h.busy hidle] at hplaying
        cases hplaying
      exact (h.inHand snapshot hplaying).of_stay hseats.stays hhand hseating
  | claimed hquorum =>
    obtain ⟨-, -, rfl⟩ := TableInner.tryQuorum_eq_some.mp hquorum
    exact h.of_same rfl rfl rfl (fun hidle => by cases hidle) fun snapshot h => by cases h
  | lost hready =>
    refine h.of_same rfl rfl rfl (fun hidle => ?_) fun snapshot h => by cases h
    rw [h.busy hidle] at hready
    cases hready
  | began hready hquorum =>
    refine h.of_same rfl rfl rfl (fun hidle => ?_) fun snapshot hplaying => ?_
    · rw [h.busy hidle] at hready
      cases hready
    · obtain rfl := ActorPhase.playing.inj hplaying
      refine ⟨hquorum, nodup_eligible config s.actor.inner, fun p hp => ?_, fun p hp => ?_⟩
      · obtain ⟨seat, -, -, hfunded⟩ := mem_eligible hp
        exact hfunded
      · obtain ⟨seat, hseat, hstack, -⟩ := mem_eligible hp
        exact ⟨seat, hseat, congrArg (Option.map Seat.playerId) hseat, hstack⟩
  | resumed hlost => exact h.of_same rfl rfl rfl (fun _ => rfl) fun snapshot h => by cases h

end Steps

/-- The runs of a table in which no hand overflows. -/
def Cashier.Runs (e : Engine) (sessionOf : κ → ℤ) (tableId : ℕ) (config : TableConfig) :
    Cashier κ m → List (TableMove κ) → Cashier κ m → Prop :=
  Trace fun s move t => s.actor.NoOverflow ∧ s.step e sessionOf tableId config move = some t

/-- In every run of a table for at least two, with a big blind and without overflow, the chips
at the table are its buy-ins less the stacks of the seats vacated. A hand is settled with the
players who played it and leaves nobody to be clamped, a panic moves no chips, and seats are
vacated between hands or at the end of one. -/
theorem table_chips_conserved (e : Engine) (sessionOf : κ → ℤ) (tableId : ℕ)
    (config : TableConfig) (hseats : 2 ≤ config.minSeats) (hblind : 0 < config.bigBlind)
    (hrules : 0 < e.rules.bigBlind) {moves : List (TableMove κ)} {s : Cashier κ m}
    (hrun : Cashier.Runs e sessionOf tableId config .new moves s) :
    Accountable e sessionOf tableId config s := by
  have hbooks : BooksBalance config s :=
    hrun.invariant (BooksBalance config)
      (fun _ _ _ h hstep => h.step hseats hblind hrules hstep.1 hstep.2) (booksBalance_new config)
  refine ⟨hbooks.balanced, fun hfits move t hmove snapshot r hsettles => ?_,
    fun move t hmove hnone => (moved_of_move hmove).stays hnone⟩
  have hmoved := moved_of_move hmove
  cases hmoved with
  | @settled _ snapshot' r' hplaying hsettles' hr =>
    obtain ⟨rfl, rfl⟩ := Prod.mk.inj (Option.some.inj (hsettles'.symm.trans hsettles))
    exact hbooks.handSettled hplaying (hbooks.reports hseats hblind hrules hplaying hfits hr)
  | @changed op inner hop hseats =>
    cases op with
    | actor actorOp => exact absurd rfl (hop actorOp)
    | _ => cases hsettles
  | claimed | lost | began | resumed => cases hsettles

/-- One hand at a table for two is played to the end while a player leaves, and the next
one panics. -/
def twoHands : List (TableMove ℤ) :=
  [.op (.sit 1 "ann" 1 20), .op (.sit 2 "bob" 2 30), .op (.actor .quorum),
    .op (.actor .snapshot), .op (.leave 1), .op (.actor (.finish (fun i => ⟨i⟩) [.fold])),
    .op (.sit 3 "cleo" 3 40), .op (.actor .quorum), .op (.actor .snapshot), .panic]

/-- The books of this table after these moves, if no hand overflows. -/
def twoSeatBooks (moves : List (TableMove ℤ)) : Option (Cashier ℤ 2) :=
  moves.foldlM (fun (s : Cashier ℤ 2) move => if s.actor.NoOverflow then
    s.step headsUpEngine id 1 headsUpTable move else none) .new

theorem table_chips_conserved_two_hands :
    ∃ s, twoSeatBooks twoHands = some s ∧ s.boughtIn = 90 ∧ s.removed = 21 ∧
      Accountable headsUpEngine id 1 headsUpTable s := by
  have hrun : (twoSeatBooks twoHands).any fun s => s.boughtIn = 90 ∧ s.removed = 21 := by
    decide +kernel
  obtain ⟨s, hs, htest⟩ := (Option.any_eq_true _ _).mp hrun
  obtain ⟨hbought, hremoved⟩ := of_decide_eq_true htest
  exact ⟨s, hs, hbought, hremoved, table_chips_conserved headsUpEngine id 1 headsUpTable
    (by decide) (by decide) (by decide) (.of_foldlM_ite hs)⟩

end VibePoker.Server
