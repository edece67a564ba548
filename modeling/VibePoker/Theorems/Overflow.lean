import VibePoker.Game.Exactness
import VibePoker.Theorems.TableChips

/-!
# Overflow at a table

A table takes every buy-in from ten big blinds on, and its engine adds up the chips of all
players in 32 bits and reports what they win in a signed 32-bit word. A hand overflows
nowhere if its players hold fewer than `2 ^ 31` chips together; two players can have more.

## Main definitions

* `HandExact` — nothing overflows in a hand, however it is played, nor when it is settled
* `TableActor.DealsFitting` — a hand is only dealt to players with fewer than `2 ^ 31` chips

## Main results

* `table_exact` — every run of a table that deals such hands only
* `table_overflows` — two players with more chips
-/

namespace VibePoker.Server

open VibePoker.Core VibePoker.Game VibePoker.Net VibePoker.CS

variable {κ : Type*} {m : ℕ}

/-! ## The statement -/

/-- The engine that plays the hands of a table. -/
def handEngine (smallBlind : ℕ) (config : TableConfig) (evaluator : HandEvaluator) : Engine :=
  ⟨.noLimitHoldem smallBlind config.bigBlind, evaluator⟩

/-- The answers in the hand of a snapshot are among the offered actions. -/
def RunningSnapshot.AnsweredLegally (snapshot : RunningSnapshot κ m) (e : Engine) (tableId : ℕ)
    (order : Fin 52 → Card) (answers : List Action) : Prop :=
  ∀ p ∈ answered (runHand e snapshot.handId (deriveSeed tableId snapshot.handId) order
    (snapshot.players.map SnapshotPlayer.stack) snapshot.dealer none answers).1 answers,
    p.1.legal e p.2

/-- The hand of a snapshot computes exactly, however the deck lies and whichever of the
offered actions the players answer, and so does the settlement of its result. -/
structure HandExact (e : Engine) (tableId : ℕ) (seats : Fin m → Option (Seat κ))
    (snapshot : RunningSnapshot κ m) : Prop where
  engine : ∀ order answers, snapshot.AnsweredLegally e tableId order answers →
    runHandChecked e snapshot.handId (deriveSeed tableId snapshot.handId) order
        (snapshot.players.map SnapshotPlayer.stack) snapshot.dealer none answers =
      some (runHand e snapshot.handId (deriveSeed tableId snapshot.handId) order
        (snapshot.players.map SnapshotPlayer.stack) snapshot.dealer none answers)
  settled : ∀ order answers result, snapshot.AnsweredLegally e tableId order answers →
    runOneHand e tableId order snapshot answers = some result →
    TableInner.applyDeltasChecked seats result.seats =
      some (TableInner.applyDeltas seats result.seats)

namespace TableActor

/-- The hand that runs at a table is exact. -/
def Exact (e : Engine) (tableId : ℕ) (a : TableActor κ m) : Prop :=
  ∀ snapshot, a.phase = .playing snapshot → HandExact e tableId a.inner.seats snapshot

/-- The players to whom the move deals a hand have fewer than `2 ^ 31` chips together. -/
def DealsFitting (config : TableConfig) (a : TableActor κ m) : TableMove κ → Prop
  | .op (.actor .snapshot) => ((a.inner.eligible config).map SnapshotPlayer.stack).sum < 2 ^ 31
  | _ => True

instance decidableDealsFitting (config : TableConfig) (a : TableActor κ m) :
    ∀ move, Decidable (a.DealsFitting config move)
  | .op (.actor .snapshot) => Nat.decLt _ _
  | .op (.actor .quorum) => instDecidableTrue
  | .op (.actor .resume) => instDecidableTrue
  | .op (.actor (.finish _ _)) => instDecidableTrue
  | .op (.sit _ _ _ _) => instDecidableTrue
  | .op (.leave _) => instDecidableTrue
  | .op (.forceLeave _ _) => instDecidableTrue
  | .op (.reconnect _ _) => instDecidableTrue
  | .panic => instDecidableTrue

/-- The runs of a table whose moves all satisfy `cond`. -/
def MoveRuns (e : Engine) (sessionOf : κ → ℤ) (tableId : ℕ) (config : TableConfig)
    (cond : TableActor κ m → TableMove κ → Prop) :
    TableActor κ m → List (TableMove κ) → TableActor κ m → Prop :=
  Trace fun a move b => cond a move ∧ a.move e sessionOf tableId config move = some b

end TableActor

/-! ## Settling exactly -/

namespace TableInner

variable {seats : Fin m → Option (Seat κ)} {outcomes : List SeatOutcome}

theorem applyOutcomeChecked_eq {o : SeatOutcome}
    (h : ∀ (i : Fin m) seat, o.seat = i → seats i = some seat →
      0 ≤ (seat.stack : ℤ) + o.chipDelta ∧ (seat.stack : ℤ) + o.chipDelta < 2 ^ 32) :
    applyOutcomeChecked seats o = some (applyOutcome seats o) := by
  refine collect_eq_some fun i => ?_
  unfold applyOutcome
  split_ifs with hi
  · cases hseat : seats i with
    | none => rfl
    | some seat =>
      obtain ⟨hlow, hhigh⟩ := h i seat hi.symm hseat
      dsimp only
      rw [wordOfInt_of_mem hlow hhigh]
      rfl
  · rfl

/-- Each seat has one outcome, so that it is added to the stack that the seat had. -/
theorem applyDeltasChecked_eq (hnodup : (outcomes.map SeatOutcome.seat).Nodup)
    (h : ∀ o ∈ outcomes, ∀ (i : Fin m) seat, o.seat = i → seats i = some seat →
      0 ≤ (seat.stack : ℤ) + o.chipDelta ∧ (seat.stack : ℤ) + o.chipDelta < 2 ^ 32) :
    applyDeltasChecked seats outcomes = some (applyDeltas seats outcomes) := by
  induction outcomes generalizing seats with
  | nil => rfl
  | cons o outcomes ih =>
    obtain ⟨hfirst, hrest⟩ := List.nodup_cons.mp hnodup
    rw [applyDeltasChecked, List.foldlM_cons,
      applyOutcomeChecked_eq (h o List.mem_cons_self)]
    refine ih hrest fun o' ho' i seat hi hseat => ?_
    have hother : o.seat ≠ i := fun heq =>
      hfirst (List.mem_map.mpr ⟨o', ho', hi.trans heq.symm⟩)
    rw [applyOutcome_of_ne hother] at hseat
    exact h o' (List.mem_cons_of_mem _ ho') i seat hi hseat

end TableInner

/-! ## The hand of a snapshot -/

/-- What is known of the players of a snapshot while their hand runs. -/
structure Dealt (config : TableConfig) (seats : Fin m → Option (Seat κ))
    (snapshot : RunningSnapshot κ m) : Prop where
  nodup : (snapshot.players.map SnapshotPlayer.tableSeat).Nodup
  funded : ∀ p ∈ snapshot.players, config.bigBlind ≤ p.stack
  fits : (snapshot.players.map SnapshotPlayer.stack).sum < 2 ^ 31
  seated : PlayersSeated snapshot seats

section Hands

variable {smallBlind : ℕ} {evaluator : HandEvaluator} {tableId : ℕ} {config : TableConfig}
  {snapshot : RunningSnapshot κ m} {seats : Fin m → Option (Seat κ)}

theorem Dealt.passesChecks (h : Dealt config seats snapshot) (smallBlind : ℕ)
    (evaluator : HandEvaluator) (tableId : ℕ) (order : Fin 52 → Card) (answers : List Action) :
    PassesChecks (snapshot.players.map SnapshotPlayer.stack).get
      (runHandChecked (handEngine smallBlind config evaluator) snapshot.handId
        (deriveSeed tableId snapshot.handId) order (snapshot.players.map SnapshotPlayer.stack)
        snapshot.dealer none answers)
      (runHand (handEngine smallBlind config evaluator) snapshot.handId
        (deriveSeed tableId snapshot.handId) order (snapshot.players.map SnapshotPlayer.stack)
        snapshot.dealer none answers) := by
  refine runHand_checked rfl (fun stack hstack => ?_) h.fits _ _ order _ none answers
  obtain ⟨p, hp, rfl⟩ := List.mem_map.mp hstack
  exact h.funded p hp

/-- The result of a hand leaves each player with chips of the table. -/
theorem Dealt.affordable (h : Dealt config seats snapshot) {order : Fin 52 → Card}
    {answers : List Action} {r : HandResult}
    (hr : handResult? (handEngine smallBlind config evaluator) tableId order snapshot answers =
      some r) :
    (r.seats.map SeatOutcome.seat).Nodup ∧
      ∀ o ∈ r.seats, ∃ p, snapshot.players[o.seat]? = some p ∧
        0 ≤ (p.stack : ℤ) + o.chipDelta ∧ (p.stack : ℤ) + o.chipDelta < 2 ^ 32 := by
  have haffordable := (h.passesChecks smallBlind evaluator tableId order answers).affordable
  rw [handResult?] at hr
  split at hr
  case h_1 result players chipDeltas rest hfinished =>
    obtain rfl := Option.some.inj hr
    rw [hfinished] at haffordable
    refine ⟨nodup_of_finished hfinished, fun o ho => ?_⟩
    obtain ⟨i, hi, hlow, hhigh⟩ := haffordable o ho
    obtain ⟨p, hp, hstack⟩ := player_of_stack i
    have hsum : ∑ j, ((snapshot.players.map SnapshotPlayer.stack).get j : ℤ) < 2 ^ 31 := by
      have hfits := h.fits
      rw [← Fin.sum_univ_getElem] at hfits
      exact_mod_cast hfits
    refine ⟨p, by rw [hi, hp], ?_, ?_⟩
    · rw [hstack]
      exact hlow
    · rw [hstack]
      omega
  case h_2 =>
    obtain rfl := Option.some.inj hr
    exact ⟨List.nodup_nil, fun o ho => by cases ho⟩
  case h_3 => cases hr
  case h_4 => cases hr

theorem Dealt.handExact (h : Dealt config seats snapshot) :
    HandExact (handEngine smallBlind config evaluator) tableId seats snapshot where
  engine order answers _ :=
    (h.passesChecks smallBlind evaluator tableId order answers).checked_eq
  settled order answers result _ hresult := by
    rw [runOneHand_eq] at hresult
    obtain ⟨r, hr, rfl⟩ := Option.map_eq_some_iff.mp hresult
    obtain ⟨hreported, hstacks⟩ := h.affordable hr
    have hplayers : ∀ o ∈ r.seats, ∃ p, snapshot.players[o.seat]? = some p := by
      intro o ho
      obtain ⟨p, hp, -⟩ := hstacks o ho
      exact ⟨p, hp⟩
    refine TableInner.applyDeltasChecked_eq
      (nodup_rWithTableSeats hplayers hreported h.nodup) fun o ho i seat hi hseat => ?_
    obtain ⟨o₀, ho₀, p, hp, rfl⟩ := exists_of_mem_rWithTableSeats hplayers ho
    obtain ⟨q, hq, hbounds⟩ := hstacks o₀ ho₀
    obtain rfl := Option.some.inj (hp.symm.trans hq)
    obtain ⟨other, hother, hstack⟩ := h.seated p (List.mem_of_getElem? hp)
    obtain rfl : p.tableSeat = i := Fin.ext hi
    obtain rfl := Option.some.inj (hseat.symm.trans hother)
    rw [hstack]
    exact hbounds

end Hands

/-! ## Runs -/

/-- The invariant of the runs of a table that deals fitting hands only. -/
structure HandsFit (config : TableConfig) (a : TableActor κ m) : Prop where
  busy : a.inner.handInProgress = false → a.phase = .waiting
  dealt : ∀ snapshot, a.phase = .playing snapshot → Dealt config a.inner.seats snapshot

theorem handsFit_new (config : TableConfig) : HandsFit config (.new : TableActor κ m) where
  busy _ := rfl
  dealt snapshot h := by cases h

section Runs

variable {e : Engine} {sessionOf : κ → ℤ} {tableId : ℕ} {config : TableConfig}
  {a b : TableActor κ m} {move : TableMove κ}

/-- The players of a hand keep their seats and stacks while the sessions go on. -/
theorem Dealt.of_stay {before after : TableInner κ m} {snapshot : RunningSnapshot κ m}
    (h : Dealt config before.seats snapshot) (hstay : SeatsStay before after)
    (hhand : before.handInProgress = true) : Dealt config after.seats snapshot where
  nodup := h.nodup
  funded := h.funded
  fits := h.fits
  seated p hp := by
    obtain ⟨seat, hseat, hstack⟩ := h.seated p hp
    rcases hstay _ _ hseat with ⟨hidle, -⟩ | ⟨seat', hseat', -, hsame, -⟩
    · rw [hhand] at hidle
      cases hidle
    · exact ⟨seat', hseat', hsame.trans hstack⟩

/-- A snapshot that fits is dealt. -/
theorem dealt_of_snapshot (inner : TableInner κ m)
    (hfits : ((inner.eligible config).map SnapshotPlayer.stack).sum < 2 ^ 31) :
    Dealt config inner.seats (inner.takeRunningSnapshot config).1 where
  nodup := nodup_eligible config inner
  funded p hp := by
    obtain ⟨seat, -, -, hfunded⟩ := mem_eligible hp
    exact hfunded
  fits := hfits
  seated p hp := by
    obtain ⟨seat, hseat, hstack, -⟩ := mem_eligible hp
    exact ⟨seat, hseat, hstack⟩

/-- Every move that deals no hand or a fitting one keeps the invariant. -/
theorem HandsFit.step (h : HandsFit config a) (hdeals : a.DealsFitting config move)
    (hmove : a.move e sessionOf tableId config move = some b) : HandsFit config b := by
  have hmoved := moved_of_move hmove
  cases hmoved with
  | settled => exact ⟨fun _ => rfl, fun snapshot h => by cases h⟩
  | @changed op inner hop hseats =>
    refine ⟨fun hidle => h.busy (hseats.handInProgress_eq.symm.trans hidle), ?_⟩
    intro snapshot hplaying
    have hhand : a.inner.handInProgress = true := by
      refine eq_true_of_ne_false fun hidle => ?_
      rw [h.busy hidle] at hplaying
      cases hplaying
    exact (h.dealt snapshot hplaying).of_stay hseats.stays hhand
  | claimed hquorum =>
    obtain ⟨-, -, rfl⟩ := TableInner.tryQuorum_eq_some.mp hquorum
    exact ⟨fun hidle => (by cases hidle), fun snapshot h => by cases h⟩
  | lost hready =>
    refine ⟨fun hidle => ?_, fun snapshot h => by cases h⟩
    rw [h.busy hidle] at hready
    cases hready
  | began hready =>
    refine ⟨fun hidle => ?_, fun snapshot hplaying => ?_⟩
    · rw [h.busy hidle] at hready
      cases hready
    · obtain rfl := ActorPhase.playing.inj hplaying
      exact dealt_of_snapshot a.inner hdeals
  | resumed => exact ⟨fun _ => rfl, fun snapshot h => by cases h⟩

end Runs

/-- In every run of a table, of any size, in which hands are only dealt to players with fewer
than `2 ^ 31` chips together, every hand computes exactly, whatever its players do, and is
settled exactly. -/
theorem table_exact (smallBlind : ℕ) (evaluator : HandEvaluator) (sessionOf : κ → ℤ)
    (tableId : ℕ) (config : TableConfig) {moves : List (TableMove κ)} {a : TableActor κ m}
    (hrun : TableActor.MoveRuns (handEngine smallBlind config evaluator) sessionOf tableId config
      (fun a move => a.DealsFitting config move) .new moves a) :
    a.Exact (handEngine smallBlind config evaluator) tableId := by
  have hfit : HandsFit config a :=
    hrun.invariant (HandsFit config) (fun _ _ _ h hstep => h.step hstep.1 hstep.2)
      (handsFit_new config)
  exact fun snapshot hplaying => (hfit.dealt snapshot hplaying).handExact

/-- The table for two after these moves, if only fitting hands are dealt. -/
def fittingTable (moves : List (TableMove ℤ)) : Option (TableActor ℤ 2) :=
  moves.foldlM (fun (a : TableActor ℤ 2) move => if a.DealsFitting headsUpTable move then
    a.move headsUpEngine id 1 headsUpTable move else none) .new

/-- The players of the hand that runs. -/
def TableActor.playersInHand (a : TableActor κ m) : ℕ :=
  match a.phase with
  | .playing snapshot => snapshot.players.length
  | _ => 0

/-- The second hand of two, while it is played. -/
theorem table_exact_second_hand :
    ∃ a, fittingTable (twoHands.take 9) = some a ∧ a.playersInHand = 2 ∧
      a.Exact headsUpEngine 1 := by
  have hrun : (fittingTable (twoHands.take 9)).any fun a => a.playersInHand = 2 := by
    decide +kernel
  obtain ⟨a, ha, htest⟩ := (Option.any_eq_true _ _).mp hrun
  exact ⟨a, ha, of_decide_eq_true htest,
    table_exact 1 ⟨fun _ => 0⟩ id 1 headsUpTable (.of_foldlM_ite ha)⟩

/-! ## Hands that overflow -/

/-- A check of the engine fails when the hand that runs is answered like this, with offered
actions. -/
def TableActor.overflows (e : Engine) (tableId : ℕ) (answers : List Action)
    (a : TableActor κ m) : Bool :=
  match a.phase with
  | .playing snapshot =>
    (answered (runHand e snapshot.handId (deriveSeed tableId snapshot.handId) (fun i => ⟨i⟩)
      (snapshot.players.map SnapshotPlayer.stack) snapshot.dealer none answers).1 answers).all
        (fun p => p.1.legal e p.2) &&
      (runHandChecked e snapshot.handId (deriveSeed tableId snapshot.handId) (fun i => ⟨i⟩)
        (snapshot.players.map SnapshotPlayer.stack) snapshot.dealer none answers).isNone
  | _ => false

theorem TableActor.not_exact {e : Engine} {tableId : ℕ} {answers : List Action}
    {a : TableActor κ m} (h : a.overflows e tableId answers) : ¬ a.Exact e tableId := by
  intro hexact
  rw [TableActor.overflows] at h
  split at h
  · rename_i snapshot hplaying
    obtain ⟨hlegal, hnone⟩ := (Bool.and_eq_true _ _).mp h
    have hanswered : snapshot.AnsweredLegally e tableId (fun i => ⟨i⟩) answers :=
      fun p hp => of_decide_eq_true (List.all_eq_true.mp hlegal p hp)
    rw [(hexact snapshot hplaying).engine _ _ hanswered] at hnone
    cases hnone
  · cases h

/-- A table with blinds of 1 and 2 that plays when all of its seats are taken. -/
def fullTable (seats : ℕ) : TableConfig := ⟨seats, seats, 2, 30000⟩

/-- All seats of a table are taken for the same buy-in, and a hand is dealt. -/
def equalBuyIns (seats buyIn : ℕ) : List (TableMove ℤ) :=
  (List.range seats).map (fun i => .op (.sit (i + 1) "" i buyIn)) ++
    [.op (.actor .quorum), .op (.actor .snapshot)]

/-- The buy-in of a move is a `u32`. -/
def TableMove.BuysInWord : TableMove κ → Prop
  | .op (.sit _ _ _ buyIn) => buyIn < 2 ^ 32
  | _ => True

instance decidableBuysInWord : ∀ move : TableMove κ, Decidable move.BuysInWord
  | .op (.sit _ _ _ _) => Nat.decLt _ _
  | .op (.actor _) => instDecidableTrue
  | .op (.leave _) => instDecidableTrue
  | .op (.forceLeave _ _) => instDecidableTrue
  | .op (.reconnect _ _) => instDecidableTrue
  | .panic => instDecidableTrue

/-- The engine of such a table. -/
def fullTableEngine (seats : ℕ) : Engine := handEngine 1 (fullTable seats) ⟨fun _ => 0⟩

/-- Such a table after these moves, if all buy-ins are `u32`. -/
def filledTable (seats : ℕ) (moves : List (TableMove ℤ)) : Option (TableActor ℤ seats) :=
  moves.foldlM (fun (a : TableActor ℤ seats) move => if move.BuysInWord then
    a.move (fullTableEngine seats) id 1 (fullTable seats) move else none) .new

/-- A hand of such a table that overflows is not exact. -/
theorem not_exact_of_overflows {seats : ℕ} (moves : List (TableMove ℤ)) (answers : List Action)
    (h : (filledTable seats moves).any fun a => a.overflows (fullTableEngine seats) 1 answers) :
    ¬ ∀ moves (a : TableActor ℤ seats),
      TableActor.MoveRuns (fullTableEngine seats) id 1 (fullTable seats)
        (fun _ move => move.BuysInWord) .new moves a → a.Exact (fullTableEngine seats) 1 := by
  intro hall
  obtain ⟨a, ha, hoverflows⟩ := (Option.any_eq_true _ _).mp h
  exact TableActor.not_exact hoverflows (hall moves a (.of_foldlM_ite ha))

/-- Two players with three milliards each go all-in: the pot does not fit 32 bits. Three
players with 1.2 milliards each put 1.1 milliards in, and two of them fold to a bet: the pot
fits, but not the award as a signed word. -/
theorem table_overflows :
    (¬ ∀ moves (a : TableActor ℤ 2),
      TableActor.MoveRuns (fullTableEngine 2) id 1 (fullTable 2)
        (fun _ move => move.BuysInWord) .new moves a → a.Exact (fullTableEngine 2) 1) ∧
      ¬ ∀ moves (a : TableActor ℤ 3),
        TableActor.MoveRuns (fullTableEngine 3) id 1 (fullTable 3)
          (fun _ move => move.BuysInWord) .new moves a → a.Exact (fullTableEngine 3) 1 := by
  constructor
  · exact not_exact_of_overflows (equalBuyIns 2 3000000000) [.allIn, .allIn] (by decide +kernel)
  · exact not_exact_of_overflows (equalBuyIns 3 1200000000)
      [.raise 1100000000, .call, .call, .raise 50000000, .fold, .fold] (by decide +kernel)

end VibePoker.Server
