import VibePoker.CS.Trace
import VibePoker.Server.Seats

/-!
# Quorum and leavers

The table actor claims a table when enough seats are occupied, but plays with the
seats that hold a big blind. As long as no hand leaves a seat between the two, and
nothing overflows, the snapshot always meets the quorum and no leaver outlives its
hand. One short seat is enough to make the actor spin, and to strand a leaver.

## Main definitions

* `TableActor.Runs` — the runs of a table
* `TableActor.EndsExactly` — the hands in which nothing overflows
* `TableActor.LeavesBlinds` — the hands that leave no short seat

## Main results

* `quorum_sound` — snapshots and leavers, when no hand leaves a short seat
* `quorum_unsound` — a hand that leaves one
* `TableActor.ShortQuorum.spins` — a table at which the actor spins
-/

namespace VibePoker.Server

open VibePoker.Core VibePoker.Game VibePoker.Net VibePoker.CS

variable {κ : Type*} {m : ℕ}

/-! ## Quorum and eligibility -/

namespace TableInner

variable {inner inner' : TableInner κ m} {config : TableConfig}

/-- Every occupied seat holds at least a big blind. -/
def NoShortSeat (config : TableConfig) (inner : TableInner κ m) : Prop :=
  ∀ i seat, inner.seats i = some seat → config.bigBlind ≤ seat.stack

/-- No seat is marked as leaving. -/
def NoLeaver (inner : TableInner κ m) : Prop :=
  ∀ i seat, inner.seats i = some seat → seat.leavePending = false

/-- The snapshot that follows a successful wait for a quorum meets the quorum. -/
def SnapshotMeetsQuorum (config : TableConfig) (inner : TableInner κ m) : Prop :=
  ∀ claimed, inner.tryQuorum config = some claimed →
    config.minSeats ≤ (claimed.takeRunningSnapshot config).1.players.length

theorem seated_le_seated (h : ∀ i, (inner.seats i).isSome → (inner'.seats i).isSome) :
    inner.seated ≤ inner'.seated :=
  (List.monotone_filter_right _ h).length_le

/-- Without short seats everyone who counts for the quorum can play. -/
theorem NoShortSeat.length_eligible (h : inner.NoShortSeat config) :
    (inner.eligible config).length = inner.seated := by
  rw [eligible, List.length_filterMap_eq_countP, seated, ← List.countP_eq_length_filter]
  congr 1
  funext i
  cases hseat : inner.seats i with
  | none => rfl
  | some seat => simp [Nat.not_lt.mpr (h i seat hseat)]

end TableInner

/-! ## Runs of a table -/

namespace TableActor

variable (e : Engine) (sessionOf : κ → ℤ) (tableId : ℕ) (config : TableConfig)

/-- The runs of a table whose steps all satisfy `cond`. -/
def Runs (cond : TableActor κ m → TableOp κ → Prop) :
    TableActor κ m → List (TableOp κ) → TableActor κ m → Prop :=
  Trace fun a op b => cond a op ∧ a.step e sessionOf tableId config op = some b

/-- Nothing overflows in the hand that the operation ends, nor when it is settled. -/
def EndsExactly (a : TableActor κ m) : TableOp κ → Prop
  | .actor (.finish order answers) =>
    match a.phase with
    | .playing snapshot =>
      (runHandChecked e snapshot.handId (deriveSeed tableId snapshot.handId) order
        (snapshot.players.map SnapshotPlayer.stack) snapshot.dealer none answers).isSome ∧
      ∀ result ∈ runOneHand e tableId order snapshot answers,
        (TableInner.applyDeltasChecked a.inner.seats result.seats).isSome
    | _ => True
  | _ => True

instance (a : TableActor κ m) (op : TableOp κ) : Decidable (a.EndsExactly e tableId op) := by
  unfold EndsExactly
  split
  · split <;> infer_instance
  · infer_instance

/-- The operation is not the end of a hand that leaves a seat that stays with
chips, but with fewer than the big blind. -/
def LeavesBlinds (a : TableActor κ m) : TableOp κ → Prop
  | .actor (.finish order answers) =>
    match a.phase with
    | .playing snapshot =>
      ∀ result ∈ runOneHand e tableId order snapshot answers, ∀ i,
        ∀ seat ∈ TableInner.applyDeltas a.inner.seats result.seats i,
          seat.leavePending = false → seat.stack = 0 ∨ config.bigBlind ≤ seat.stack
    | _ => True
  | _ => True

instance (a : TableActor κ m) (op : TableOp κ) :
    Decidable (a.LeavesBlinds e tableId config op) := by
  unfold LeavesBlinds
  split
  · split <;> infer_instance
  · infer_instance

/-- What the position of the actor says about the table. -/
def PhaseInv (a : TableActor κ m) : Prop :=
  match a.phase with
  | .waiting => a.inner.handInProgress = false
  | .ready => a.inner.handInProgress = true ∧ config.minSeats ≤ a.inner.seated
  | .lost => False
  | .playing _ => a.inner.handInProgress = true

/-- The invariant of runs without short seats. -/
structure QuorumInv (a : TableActor κ m) : Prop where
  noShortSeat : a.inner.NoShortSeat config
  noLeaver : a.inner.handInProgress = false → a.inner.NoLeaver
  phase : a.PhaseInv config

theorem quorumInv_new : QuorumInv config (new : TableActor κ m) where
  noShortSeat i seat h := by cases h
  noLeaver _ i seat h := by cases h
  phase := rfl

variable {config} {a b : TableActor κ m}

/-- The phase invariant survives a change of seats that neither ends the hand nor
empties a seat during one. -/
theorem PhaseInv.of_seats {inner : TableInner κ m} (h : a.PhaseInv config)
    (hhand : inner.handInProgress = a.inner.handInProgress)
    (hseats : a.inner.handInProgress → ∀ i, (a.inner.seats i).isSome → (inner.seats i).isSome) :
    PhaseInv config { a with inner := inner } := by
  obtain ⟨before, phase⟩ := a
  cases phase with
  | waiting => exact hhand.trans h
  | ready =>
    have hmono := TableInner.seated_le_seated (hseats h.1)
    exact ⟨hhand.trans h.1, h.2.trans hmono⟩
  | lost => exact h
  | playing snapshot => exact hhand.trans h

theorem QuorumInv.release (h : QuorumInv config a) (i : Fin m) :
    QuorumInv config { a with inner := a.inner.release i } where
  noShortSeat j seat hseat := by
    obtain ⟨before, hbefore, rfl | ⟨-, rfl⟩⟩ := TableInner.release_seats hseat
    · exact h.noShortSeat j seat hbefore
    · exact h.noShortSeat j before hbefore
  noLeaver hhand j seat hseat := by
    rw [TableInner.release_handInProgress] at hhand
    obtain ⟨before, hbefore, rfl | ⟨hduring, -⟩⟩ := TableInner.release_seats hseat
    · exact h.noLeaver hhand j seat hbefore
    · rw [hhand] at hduring
      cases hduring
  phase := by
    apply h.phase.of_seats TableInner.release_handInProgress
    intro hhand j hj
    by_cases hji : j = i
    · subst hji
      rw [TableInner.release_seats_self, if_pos hhand, Option.isSome_map]
      exact hj
    · rw [TableInner.release_seats_of_ne hji]
      exact hj

/-- Filling seat `i`, or changing its link, keeps the invariant. -/
theorem QuorumInv.setSeat (h : QuorumInv config a) {i : Fin m} {seat : Seat κ}
    (hstack : config.bigBlind ≤ seat.stack)
    (hstays : a.inner.handInProgress = false → seat.leavePending = false) :
    QuorumInv config { a with inner := a.inner.setSeat i (some seat) } where
  noShortSeat j other hother := by
    by_cases hji : j = i
    · subst hji
      rw [TableInner.setSeat_seats_self] at hother
      exact Option.some.inj hother ▸ hstack
    · rw [TableInner.setSeat_seats_of_ne _ hji] at hother
      exact h.noShortSeat j other hother
  noLeaver hhand j other hother := by
    by_cases hji : j = i
    · subst hji
      rw [TableInner.setSeat_seats_self] at hother
      exact Option.some.inj hother ▸ hstays hhand
    · rw [TableInner.setSeat_seats_of_ne _ hji] at hother
      exact h.noLeaver hhand j other hother
  phase := by
    apply h.phase.of_seats (TableInner.setSeat_handInProgress _)
    intro _ j hj
    by_cases hji : j = i
    · subst hji
      rw [TableInner.setSeat_seats_self]
      rfl
    · rw [TableInner.setSeat_seats_of_ne _ hji]
      exact hj

/-- The end of a hand that leaves no short seat establishes the invariant. -/
theorem quorumInv_applyHandResult {result : HandResult}
    (hblinds : ∀ i seat, TableInner.applyDeltas a.inner.seats result.seats i = some seat →
      seat.leavePending = false → seat.stack = 0 ∨ config.bigBlind ≤ seat.stack) :
    QuorumInv config ⟨a.inner.applyHandResult result, .waiting⟩ where
  noShortSeat i seat hseat := by
    obtain ⟨hafter, hstays, hchips⟩ := TableInner.applyHandResult_seats.mp hseat
    exact (hblinds i seat hafter hstays).resolve_left hchips
  noLeaver _ i seat hseat := (TableInner.applyHandResult_seats.mp hseat).2.1
  phase := rfl

variable {e sessionOf tableId}

/-- Every step of the actor keeps the invariant, unless it is the end of a hand that
leaves a short seat. -/
theorem QuorumInv.advance (h : QuorumInv config a) {op : ActorOp}
    (hblinds : a.LeavesBlinds e tableId config (.actor op))
    (hstep : a.advance e tableId config op = some b) : QuorumInv config b := by
  have hphase := h.phase
  cases actorStep_of_advance hstep with
  | claimed hfree hseated =>
    exact ⟨h.noShortSeat, fun hhand => (by cases hhand), ⟨rfl, hseated⟩⟩
  | lost hready hfew =>
    -- everyone seated is in the snapshot, so it meets the quorum
    rw [PhaseInv, hready] at hphase
    rw [h.noShortSeat.length_eligible] at hfew
    exact absurd hphase.2 (Nat.not_le.mpr hfew)
  | began hready hquorum =>
    rw [PhaseInv, hready] at hphase
    exact ⟨h.noShortSeat, h.noLeaver, hphase.1⟩
  | resumed hlost =>
    rw [PhaseInv, hlost] at hphase
    exact hphase.elim
  | finished hplaying hresult =>
    rw [LeavesBlinds, hplaying] at hblinds
    exact quorumInv_applyHandResult (hblinds _ hresult)

/-- Every operation keeps the invariant, unless it is the end of a hand that leaves
a short seat. -/
theorem QuorumInv.step (h : QuorumInv config a) (hword : config.bigBlind * 10 < 2 ^ 32)
    {op : TableOp κ} (hblinds : a.LeavesBlinds e tableId config op)
    (hstep : a.step e sessionOf tableId config op = some b) : QuorumInv config b := by
  rcases step_cases hstep with ⟨inner, -, rfl, hseat⟩ | ⟨actorOp, rfl, -⟩
  · cases hseat with
    | refused => exact h
    | sat hbuyIn hstays =>
      rw [TableConfig.minBuyIn, Nat.mod_eq_of_lt hword] at hbuyIn
      exact h.setSeat (by omega) fun _ => hstays
    | released i => exact h.release i
    | @bound i seat hseat link =>
      exact h.setSeat (h.noShortSeat i seat hseat) fun hhand => h.noLeaver hhand i seat hseat
  · exact h.advance hblinds hstep

theorem QuorumInv.snapshotMeetsQuorum (h : QuorumInv config a) :
    a.inner.SnapshotMeetsQuorum config := by
  intro claimed hclaimed
  obtain ⟨-, hseated, rfl⟩ := TableInner.tryQuorum_eq_some.mp hclaimed
  have hlength := h.noShortSeat.length_eligible
  change config.minSeats ≤ (a.inner.eligible config).length
  rw [hlength]
  exact hseated

/-- One operation, if it satisfies `cond`. -/
def guarded (e : Engine) (sessionOf : κ → ℤ) (tableId : ℕ) (config : TableConfig)
    (cond : TableActor κ m → TableOp κ → Prop) [∀ a op, Decidable (cond a op)]
    (a : TableActor κ m) (op : TableOp κ) : Option (TableActor κ m) :=
  if cond a op then a.step e sessionOf tableId config op else none

theorem runs_of_foldlM {cond : TableActor κ m → TableOp κ → Prop}
    [∀ a op, Decidable (cond a op)] {ops : List (TableOp κ)}
    (h : ops.foldlM (guarded e sessionOf tableId config cond) a = some b) :
    Runs e sessionOf tableId config cond a ops b :=
  .of_foldlM_ite h

/-! ## Spinning -/

/-- Enough seats are occupied for a hand, but too few of them hold a big blind. -/
structure ShortQuorum (config : TableConfig) (a : TableActor κ m) : Prop where
  waiting : a.phase = .waiting
  idle : a.inner.handInProgress = false
  seated : config.minSeats ≤ a.inner.seated
  short : (a.inner.eligible config).length < config.minSeats

/-- The table after `k` hand ids were used up. -/
def burn (a : TableActor κ m) (k : ℕ) : TableActor κ m :=
  { a with inner := { a.inner with nextHandId := a.inner.nextHandId + k } }

/-- One turn of the actor's loop only uses up a hand id. -/
theorem ShortQuorum.turn (h : ShortQuorum config a) :
    Runs e sessionOf tableId config (fun _ _ => True) a
      [.actor .quorum, .actor .snapshot, .actor .resume] (a.burn 1) := by
  obtain ⟨inner, phase⟩ := a
  obtain ⟨rfl, hidle, hseated, hshort⟩ := h
  have hquorum : inner.tryQuorum config = some { inner with handInProgress := true } :=
    TableInner.tryQuorum_eq_some.mpr ⟨hidle, hseated, rfl⟩
  refine .cons (u := ⟨{ inner with handInProgress := true }, .ready⟩) ⟨trivial, ?_⟩ ?_
  · simp only [TableActor.step, TableActor.advance, hquorum, Option.map_some]
  refine .cons (u := ⟨{ inner with
    handInProgress := true, nextHandId := inner.nextHandId + 1 }, .lost⟩) ⟨trivial, ?_⟩ ?_
  · exact congrArg some (congrArg (TableActor.mk _) (if_pos hshort))
  refine .single ⟨trivial, ?_⟩
  simp only [TableActor.step, TableActor.advance, burn, ← hidle]

/-- At such a table the actor spins: left alone, it uses up any number of hand ids
and plays no hand. -/
theorem ShortQuorum.spins (h : ShortQuorum config a) (k : ℕ) :
    Runs e sessionOf tableId config (fun _ _ => True) a
      (List.replicate k [.actor .quorum, .actor .snapshot, .actor .resume]).flatten (a.burn k) := by
  induction k generalizing a with
  | zero => exact .nil a
  | succ k ih =>
    have hagain : ShortQuorum config (a.burn 1) := ⟨h.waiting, h.idle, h.seated, h.short⟩
    have hrest := ih hagain
    rw [List.replicate_succ, List.flatten_cons]
    refine h.turn.append ?_
    rw [show a.burn (k + 1) = (a.burn 1).burn k by simp [burn, Nat.add_comm, Nat.add_left_comm]]
    exact hrest

end TableActor

/-- As long as no hand leaves a seat that stays with fewer chips than the big blind,
and nothing overflows, snapshots meet the quorum, no leaver is left between hands, and
the actor never loses its quorum. -/
theorem quorum_sound (e : Engine) (sessionOf : κ → ℤ) (tableId : ℕ) (config : TableConfig)
    (hword : config.bigBlind * 10 < 2 ^ 32) {ops : List (TableOp κ)} {a : TableActor κ m}
    (hrun : TableActor.Runs e sessionOf tableId config
      (fun a op => a.EndsExactly e tableId op ∧ a.LeavesBlinds e tableId config op) .new ops a) :
    a.inner.SnapshotMeetsQuorum config ∧
      (a.inner.handInProgress = false → a.inner.NoLeaver) ∧ a.phase ≠ .lost := by
  have hinv : a.QuorumInv config :=
    hrun.invariant (TableActor.QuorumInv config)
      (fun _ _ _ h hstep => h.step hword hstep.1.2 hstep.2) (TableActor.quorumInv_new config)
  refine ⟨hinv.snapshotMeetsQuorum, hinv.noLeaver, fun hlost => ?_⟩
  have hphase := hinv.phase
  rw [TableActor.PhaseInv, hlost] at hphase
  exact hphase

/-! ## A table for two -/

/-- Two seats, both needed, and a big blind of 2. -/
def headsUpTable : TableConfig := ⟨2, 2, 2, 30000⟩

def headsUpEngine : Engine := ⟨⟨.noLimit, 1, 2, 0⟩, ⟨fun _ => 0⟩⟩

/-- Two players buy in for 20 and play a hand. -/
def firstHand (answers : List Action) : List (TableOp ℤ) :=
  [.sit 1 "ann" 1 20, .sit 2 "bob" 2 20, .actor .quorum, .actor .snapshot,
    .actor (.finish (fun i => ⟨i⟩) answers)]

/-- The table after these operations, if they all satisfy `cond`. -/
def headsUpRun (cond : TableActor ℤ 2 → TableOp ℤ → Prop) [∀ a op, Decidable (cond a op)]
    (ops : List (TableOp ℤ)) : Option (TableActor ℤ 2) :=
  ops.foldlM (TableActor.guarded headsUpEngine id 1 headsUpTable cond) .new

/-- A hand that leaves no short seat, and in which nothing overflows. -/
abbrev headsUpSound (a : TableActor ℤ 2) (op : TableOp ℤ) : Prop :=
  a.EndsExactly headsUpEngine 1 op ∧ a.LeavesBlinds headsUpEngine 1 headsUpTable op

/-- A hand that is folded at once leaves both players their blinds: both are dealt the next
one. -/
theorem quorum_sound_fold :
    ∃ a, headsUpRun headsUpSound (firstHand [.fold]) = some a ∧
      (a.inner.tryQuorum headsUpTable).isSome ∧ a.inner.SnapshotMeetsQuorum headsUpTable := by
  have hrun : (headsUpRun headsUpSound (firstHand [.fold])).any fun a =>
      (a.inner.tryQuorum headsUpTable).isSome := by
    decide +kernel
  obtain ⟨a, ha, hquorum⟩ := (Option.any_eq_true _ _).mp hrun
  exact ⟨a, ha, hquorum, (quorum_sound headsUpEngine id 1 headsUpTable (by decide)
    (TableActor.runs_of_foldlM ha)).1⟩

/-- A player that folds after a raise to 19 keeps one chip: now two seats are
occupied and one can play. If the other player leaves before the snapshot is
taken, the leaver is stranded. -/
theorem quorum_unsound :
    (¬ ∀ ops (a : TableActor ℤ 2),
      TableActor.Runs headsUpEngine id 1 headsUpTable (fun _ _ => True) .new ops a →
        a.inner.SnapshotMeetsQuorum headsUpTable) ∧
      ¬ ∀ ops (a : TableActor ℤ 2),
        TableActor.Runs headsUpEngine id 1 headsUpTable (fun _ _ => True) .new ops a →
          a.inner.handInProgress = false → a.inner.NoLeaver := by
  constructor
  · intro hall
    have hshort : (headsUpRun (fun _ _ => True) (firstHand [.raise 19, .allIn, .fold])).any fun a =>
        a.inner.handInProgress = false ∧ 2 ≤ a.inner.seated ∧
          (a.inner.eligible headsUpTable).length < 2 := by
      decide +kernel
    obtain ⟨a, hrun, htest⟩ := (Option.any_eq_true _ _).mp hshort
    obtain ⟨hidle, hseated, hfew⟩ := of_decide_eq_true htest
    have hmeets := hall _ a (TableActor.runs_of_foldlM hrun) _
      (TableInner.tryQuorum_eq_some.mpr ⟨hidle, hseated, rfl⟩)
    exact absurd hmeets (Nat.not_le.mpr hfew)
  · intro hall
    have hleaver : (headsUpRun (fun _ _ => True) (firstHand [.raise 19, .allIn, .fold] ++
        [.actor .quorum, .leave 1, .actor .snapshot, .actor .resume])).any fun a =>
        a.inner.handInProgress = false ∧ ∃ i, (a.inner.seats i).any Seat.leavePending := by
      decide +kernel
    obtain ⟨a, hrun, htest⟩ := (Option.any_eq_true _ _).mp hleaver
    obtain ⟨hidle, i, hi⟩ := of_decide_eq_true htest
    obtain ⟨seat, hseat, hleaving⟩ := (Option.any_eq_true _ _).mp hi
    have hstays := hall _ a (TableActor.runs_of_foldlM hrun) hidle i seat hseat
    rw [hleaving] at hstays
    cases hstays

end VibePoker.Server
