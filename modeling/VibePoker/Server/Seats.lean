import VibePoker.Server.Table

/-!
# Seats under the operations

What each operation of a table does to its seats: one lemma for each.

## Main definitions

* `TableActor.ActorStep`, `TableActor.SeatStep` — what the actor and the sessions do

## Main results

* `TableActor.step_cases` — each operation is one of these
-/

namespace VibePoker.Server

open VibePoker.Core VibePoker.Game VibePoker.Net

namespace TableInner

variable {κ : Type*} {m : ℕ} {inner inner' : TableInner κ m} {config : TableConfig}
  {playerId : ℕ} {i j : Fin m}

/-! ## Updates -/

@[simp] theorem setSeat_handInProgress (seat : Option (Seat κ)) :
    (inner.setSeat i seat).handInProgress = inner.handInProgress := rfl

@[simp] theorem setSeat_seats_self (seat : Option (Seat κ)) :
    (inner.setSeat i seat).seats i = seat := by
  simp [setSeat]

theorem setSeat_seats_of_ne (seat : Option (Seat κ)) (h : j ≠ i) :
    (inner.setSeat i seat).seats j = inner.seats j := by
  simp [setSeat, h]

/-! ## Lookup -/

theorem seatOf_eq_some (h : inner.seatOf playerId = some i) :
    ∃ seat, inner.seats i = some seat ∧ seat.playerId = playerId := by
  have hfound := List.find?_some h
  rw [Option.any_eq_true] at hfound
  obtain ⟨seat, hseat, hplayer⟩ := hfound
  exact ⟨seat, hseat, of_decide_eq_true hplayer⟩

theorem seatOf_eq_none (h : inner.seatOf playerId = none) {seat : Seat κ}
    (hseat : inner.seats i = some seat) : seat.playerId ≠ playerId := by
  intro hplayer
  have hmiss := List.find?_eq_none.mp h i (List.mem_finRange i)
  rw [hseat] at hmiss
  simp [hplayer] at hmiss

/-! ## Sitting down -/

/-- A player is placed at a free seat, and only if it has none yet. -/
theorem sit_eq_ok {username : String} {link : κ} {buyIn : ℕ}
    (h : inner.sit config playerId username link buyIn = .ok (i, inner')) :
    config.minBuyIn ≤ buyIn ∧
      (∀ j seat, inner.seats j = some seat → seat.playerId ≠ playerId) ∧
      inner.seats i = none ∧
      inner' = inner.setSeat i (some ⟨playerId, username, buyIn, link, false⟩) := by
  unfold sit at h
  split at h
  · cases h
  · rename_i hbuyIn
    split at h
    · cases h
    · rename_i hunseated
      split at h
      · cases h
      · rename_i k hfree
        obtain ⟨rfl, rfl⟩ := Prod.mk.inj (Except.ok.inj h)
        refine ⟨Nat.le_of_not_lt hbuyIn, ?_, ?_, rfl⟩
        · intro j seat hseat
          exact seatOf_eq_none (Option.not_isSome_iff_eq_none.mp hunseated) hseat
        · simpa using List.find?_some hfree

/-! ## Leaving -/

@[simp] theorem release_handInProgress :
    (inner.release i).handInProgress = inner.handInProgress := by
  unfold release
  split <;> rfl

theorem release_seats_of_ne (h : j ≠ i) : (inner.release i).seats j = inner.seats j := by
  unfold release
  split <;> exact setSeat_seats_of_ne _ h

theorem release_seats_self :
    (inner.release i).seats i =
      if inner.handInProgress then
        (inner.seats i).map fun seat => { seat with leavePending := true }
      else none := by
  unfold release
  split <;> exact setSeat_seats_self _

/-- A seat that is still there after a release is as it was, or marked as leaving
during a hand. -/
theorem release_seats {seat : Seat κ} (h : (inner.release i).seats j = some seat) :
    ∃ before, inner.seats j = some before ∧
      (seat = before ∨ (inner.handInProgress ∧ seat = { before with leavePending := true })) := by
  by_cases hji : j = i
  · subst hji
    rw [release_seats_self] at h
    split at h
    · rename_i hhand
      obtain ⟨before, hbefore, rfl⟩ := Option.map_eq_some_iff.mp h
      exact ⟨before, hbefore, Or.inr ⟨hhand, rfl⟩⟩
    · cases h
  · rw [release_seats_of_ne hji] at h
    exact ⟨seat, h, Or.inl rfl⟩

theorem leave_eq_ok (h : inner.leave playerId = .ok inner') :
    ∃ i, inner.seatOf playerId = some i ∧ inner' = inner.release i := by
  unfold leave at h
  split at h
  · cases h
  · rename_i i hi
    exact ⟨i, hi, (Except.ok.inj h).symm⟩

/-- `force_leave` releases the seat of the player or does nothing; it does nothing
if the seat is bound to another session. -/
theorem forceLeave_cases (sessionOf : κ → ℤ) (inner : TableInner κ m) (playerId : ℕ)
    (sessionId : Option ℤ) :
    inner.forceLeave sessionOf playerId sessionId = inner ∨
      ∃ i seat, inner.seatOf playerId = some i ∧ inner.seats i = some seat ∧
        (∀ sid, sessionId = some sid → sessionOf seat.link = sid) ∧
        inner.forceLeave sessionOf playerId sessionId = inner.release i := by
  unfold forceLeave
  split
  · exact Or.inl rfl
  · rename_i i hi
    obtain ⟨seat, hseat, -⟩ := seatOf_eq_some hi
    rw [hseat]
    cases sessionId with
    | none => exact Or.inr ⟨i, seat, hi, hseat, by simp, rfl⟩
    | some sid =>
      by_cases hsid : sessionOf seat.link = sid
      · refine Or.inr ⟨i, seat, hi, hseat, ?_, if_neg (not_not_intro hsid)⟩
        intro sid' hsid'
        exact hsid.trans (Option.some.inj hsid')
      · exact Or.inl (if_pos hsid)

/-! ## Reconnecting -/

theorem reconnectPlayer_eq_some {splice : Fin m → List SeatInfo → κ → κ}
    (h : inner.reconnectPlayer playerId splice = some (i, inner')) :
    ∃ seat, inner.seatOf playerId = some i ∧ inner.seats i = some seat ∧
      inner' = inner.setSeat i
        (some { seat with link := splice i inner.seatInfos seat.link }) := by
  obtain ⟨k, hk, heq⟩ := Option.map_eq_some_iff.mp h
  obtain ⟨seat, hseat, -⟩ := seatOf_eq_some hk
  rw [hseat] at heq
  obtain ⟨rfl, rfl⟩ := Prod.mk.inj heq
  exact ⟨seat, hk, hseat, rfl⟩

/-! ## Claiming the table -/

theorem tryQuorum_eq_some :
    inner.tryQuorum config = some inner' ↔
      inner.handInProgress = false ∧ config.minSeats ≤ inner.seated ∧
        inner' = { inner with handInProgress := true } := by
  unfold tryQuorum
  split
  · rename_i h
    rw [Option.some.injEq, eq_comm]
    exact ⟨fun heq => ⟨h.1, h.2, heq⟩, fun heq => heq.2.2⟩
  · rename_i h
    simp only [reduceCtorEq, false_iff]
    exact fun heq => h ⟨heq.1, heq.2.1⟩

/-! ## The end of a hand -/

theorem applyOutcome_map {seats : Fin m → Option (Seat κ)} (o : SeatOutcome) :
    ∃ stack : Seat κ → ℕ,
      applyOutcome seats o i = (seats i).map fun seat => { seat with stack := stack seat } := by
  unfold applyOutcome
  split
  · exact ⟨_, rfl⟩
  · exact ⟨Seat.stack, by simp⟩

/-- The outcomes of a hand change nothing about a seat but its stack. -/
theorem applyDeltas_map (seats : Fin m → Option (Seat κ)) (outcomes : List SeatOutcome) :
    ∃ stack : Seat κ → ℕ,
      applyDeltas seats outcomes i =
        (seats i).map fun seat => { seat with stack := stack seat } := by
  induction outcomes generalizing seats with
  | nil => exact ⟨Seat.stack, by simp [applyDeltas]⟩
  | cons o outcomes ih =>
    obtain ⟨stack, hstack⟩ := @applyOutcome_map κ m i seats o
    obtain ⟨stack', hstack'⟩ := ih (applyOutcome seats o)
    refine ⟨fun seat => stack' { seat with stack := stack seat }, ?_⟩
    rw [applyDeltas, List.foldl_cons, ← applyDeltas, hstack', hstack, Option.map_map]
    rfl

/-- What is left of a seat after a hand. -/
theorem applyHandResult_seats {result : HandResult} {seat : Seat κ} :
    (inner.applyHandResult result).seats i = some seat ↔
      applyDeltas inner.seats result.seats i = some seat ∧ seat.leavePending = false ∧
        seat.stack ≠ 0 := by
  simp only [applyHandResult, Option.bind_eq_some_iff, keep]
  constructor
  · rintro ⟨before, hbefore, hkeep⟩
    split at hkeep
    · cases hkeep
    · rename_i hstays
      obtain rfl := Option.some.inj hkeep
      push Not at hstays
      exact ⟨hbefore, eq_false_of_ne_true hstays.1, hstays.2⟩
  · rintro ⟨hafter, hstays, hchips⟩
    refine ⟨seat, hafter, if_neg ?_⟩
    simp [hstays, hchips]

end TableInner

/-! ## What an operation does -/

namespace TableActor

variable {κ : Type*} {m : ℕ} {e : Engine} {sessionOf : κ → ℤ} {tableId : ℕ}
  {config : TableConfig} {a b : TableActor κ m}

/-- The actor claims the table, takes the snapshot and plays the hand; a snapshot with too few
players is given up. -/
inductive ActorStep (e : Engine) (tableId : ℕ) (config : TableConfig) (a : TableActor κ m) :
    ActorOp → TableActor κ m → Prop
  | claimed (hfree : a.inner.handInProgress = false) (hseated : config.minSeats ≤ a.inner.seated) :
      ActorStep e tableId config a .quorum ⟨{ a.inner with handInProgress := true }, .ready⟩
  | lost (hready : a.phase = .ready) (hfew : (a.inner.eligible config).length < config.minSeats) :
      ActorStep e tableId config a .snapshot ⟨(a.inner.takeRunningSnapshot config).2, .lost⟩
  | began (hready : a.phase = .ready)
      (hquorum : config.minSeats ≤ (a.inner.eligible config).length) :
      ActorStep e tableId config a .snapshot
        ⟨(a.inner.takeRunningSnapshot config).2, .playing (a.inner.takeRunningSnapshot config).1⟩
  | resumed (hlost : a.phase = .lost) :
      ActorStep e tableId config a .resume ⟨{ a.inner with handInProgress := false }, .waiting⟩
  | finished {order : Fin 52 → Card} {answers : List Action} {snapshot : RunningSnapshot κ m}
      {result : HandResult} (hplaying : a.phase = .playing snapshot)
      (hresult : runOneHand e tableId order snapshot answers = some result) :
      ActorStep e tableId config a (.finish order answers)
        ⟨a.inner.applyHandResult result, .waiting⟩

theorem actorStep_of_advance {op : ActorOp} (h : a.advance e tableId config op = some b) :
    ActorStep e tableId config a op b := by
  cases op with
  | quorum =>
    simp only [advance] at h
    split at h
    · obtain ⟨inner, hquorum, rfl⟩ := Option.map_eq_some_iff.mp h
      obtain ⟨hfree, hseated, rfl⟩ := TableInner.tryQuorum_eq_some.mp hquorum
      exact .claimed hfree hseated
    · cases h
  | snapshot =>
    simp only [advance] at h
    split at h
    · rename_i hready
      obtain rfl := Option.some.inj h
      by_cases hfew : (a.inner.eligible config).length < config.minSeats
      · rw [if_pos (by exact hfew)]
        exact .lost hready hfew
      · rw [if_neg (by exact hfew)]
        exact .began hready (Nat.le_of_not_lt hfew)
    · cases h
  | resume =>
    simp only [advance] at h
    split at h
    · rename_i hlost
      obtain rfl := Option.some.inj h
      exact .resumed hlost
    · cases h
  | finish order answers =>
    simp only [advance] at h
    split at h
    · rename_i snapshot hplaying
      obtain ⟨result, hresult, rfl⟩ := Option.map_eq_some_iff.mp h
      exact .finished hplaying hresult
    · cases h

/-- A session fills a seat, releases one or binds one to another connection. -/
inductive SeatStep (config : TableConfig) (inner : TableInner κ m) : TableInner κ m → Prop
  | refused : SeatStep config inner inner
  | sat {i : Fin m} {seat : Seat κ} (hbuyIn : config.minBuyIn ≤ seat.stack)
      (hstays : seat.leavePending = false) : SeatStep config inner (inner.setSeat i (some seat))
  | released (i : Fin m) : SeatStep config inner (inner.release i)
  | bound {i : Fin m} {seat : Seat κ} (hseat : inner.seats i = some seat) (link : κ) :
      SeatStep config inner (inner.setSeat i (some { seat with link := link }))

theorem seatStep_of_step {op : TableOp κ} (hop : ∀ actorOp, op ≠ .actor actorOp)
    (h : a.step e sessionOf tableId config op = some b) :
    ∃ inner, b = { a with inner := inner } ∧ SeatStep config a.inner inner := by
  cases op with
  | sit playerId username link buyIn =>
    simp only [step] at h
    split at h
    · rename_i i inner hsit
      obtain ⟨hbuyIn, -, -, rfl⟩ := TableInner.sit_eq_ok hsit
      exact ⟨_, (Option.some.inj h).symm, .sat hbuyIn rfl⟩
    · exact ⟨a.inner, (Option.some.inj h).symm, .refused⟩
  | leave playerId =>
    simp only [step] at h
    split at h
    · rename_i inner hleave
      obtain ⟨i, -, rfl⟩ := TableInner.leave_eq_ok hleave
      exact ⟨_, (Option.some.inj h).symm, .released i⟩
    · exact ⟨a.inner, (Option.some.inj h).symm, .refused⟩
  | forceLeave playerId sessionId =>
    refine ⟨_, (Option.some.inj h).symm, ?_⟩
    rcases TableInner.forceLeave_cases sessionOf a.inner playerId sessionId with
      hsame | ⟨i, seat, -, -, -, hrelease⟩
    · rw [hsame]
      exact .refused
    · rw [hrelease]
      exact .released i
  | reconnect playerId link =>
    simp only [step] at h
    split at h
    · rename_i i inner hreconnect
      obtain ⟨seat, -, hseat, rfl⟩ := TableInner.reconnectPlayer_eq_some hreconnect
      exact ⟨_, (Option.some.inj h).symm, .bound hseat link⟩
    · exact ⟨a.inner, (Option.some.inj h).symm, .refused⟩
  | actor actorOp => exact absurd rfl (hop actorOp)

/-- An operation is a session's, or a step of the actor. -/
theorem step_cases {op : TableOp κ} (h : a.step e sessionOf tableId config op = some b) :
    (∃ inner, (∀ actorOp, op ≠ .actor actorOp) ∧ b = { a with inner := inner } ∧
        SeatStep config a.inner inner) ∨
      ∃ actorOp, op = .actor actorOp ∧ ActorStep e tableId config a actorOp b := by
  by_cases hop : ∀ actorOp, op ≠ .actor actorOp
  · obtain ⟨inner, hb, hstep⟩ := seatStep_of_step hop h
    exact Or.inl ⟨inner, hop, hb, hstep⟩
  · push Not at hop
    obtain ⟨actorOp, rfl⟩ := hop
    exact Or.inr ⟨actorOp, rfl, actorStep_of_advance h⟩

end TableActor

/-! ## Players of a hand -/

/-- A seat of the hand is a player of the snapshot. -/
theorem player_of_stack {κ : Type*} {m : ℕ} {snapshot : RunningSnapshot κ m}
    (i : Fin (snapshot.players.map SnapshotPlayer.stack).length) :
    ∃ p, snapshot.players[i.val]? = some p ∧
      p.stack = (snapshot.players.map SnapshotPlayer.stack).get i := by
  have hlt : i.val < snapshot.players.length := i.isLt.trans_eq (List.length_map _)
  refine ⟨snapshot.players[i.val], List.getElem?_eq_getElem hlt, ?_⟩
  rw [List.get_eq_getElem, List.getElem_map]

end VibePoker.Server
