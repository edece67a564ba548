import VibePoker.Game.Heard
import VibePoker.Game.ReseatHand

/-!
# What a log tells of the seats of a hand

The result of a hand that ends names each seat that was dealt in, once. A seat that acts is
one of these and does not sit out, and a seat that does not sit out is folded at the end
exactly if the log has a fold of it.

## Main definitions

* `CompleteHand` — a hand that ends, with its log
* `CompleteHand.actions` — the actions that the log reports

## Main results

* `CompleteHand.tellsSeats` — what the log tells of who acts and who folds
-/

namespace VibePoker.Game

open VibePoker.Core VibePoker.Math

variable {n : ℕ} {e : Engine}

/-! ## Hands that end -/

/-- A hand that ends: what it is played with, and how it comes out. -/
structure CompleteHand where
  engine : Engine
  handId : ℕ
  deckSeed : ℕ
  order : Fin 52 → Card
  startingStacks : List ℕ
  dealer : ℕ
  seatKinds : Option (List SeatKind)
  answers : List Action
  result : HandResult
  players : Fin startingStacks.length → PlayerState
  chipDeltas : Fin startingStacks.length → ℤ
  rest : List Action
  finished : (runHand engine handId deckSeed order startingStacks dealer seatKinds answers).2 =
    .finished result players chipDeltas rest

namespace CompleteHand

/-- The hand that is played with these arguments. -/
def ofFinished (engine : Engine) (handId deckSeed : ℕ) (order : Fin 52 → Card)
    (startingStacks : List ℕ) (dealer : ℕ) (seatKinds : Option (List SeatKind))
    (answers : List Action)
    (h : (runHand engine handId deckSeed order startingStacks dealer seatKinds
      answers).2.isFinished) : CompleteHand :=
  match hout : (runHand engine handId deckSeed order startingStacks dealer seatKinds answers).2, h
  with
  | .finished result players chipDeltas rest, _ =>
    ⟨engine, handId, deckSeed, order, startingStacks, dealer, seatKinds, answers, result, players,
      chipDeltas, rest, hout⟩

def outputs (hand : CompleteHand) : List (Output hand.startingStacks.length) :=
  (runHand hand.engine hand.handId hand.deckSeed hand.order hand.startingStacks hand.dealer
    hand.seatKinds hand.answers).1

/-- What the hand hands to its sink. -/
def log (hand : CompleteHand) : List EngineEvent := eventsOf hand.outputs

/-- The actions that the log reports. -/
def actions (hand : CompleteHand) : List (ℕ × Action × ℕ) := reportedActions hand.outputs

end CompleteHand

/-- Events between the start and the end of a hand. -/
def EngineEvent.isMid : EngineEvent → Bool
  | .handStarted _ _ _ | .handEnded _ _ => false
  | _ => true

/-! ## Who sits out -/

/-- What the setup of a hand folds: the seats after the forced bets, with cards. -/
theorem setupHand_folds {handId : ℕ} {deck deck' : Deck} {startingStacks : List ℕ} {dealer : ℕ}
    {seatKinds : Option (List SeatKind)} {s : GameState startingStacks.length} {bb : ℕ}
    {events : List EngineEvent} (hdeck : deck.cursor ≤ 52)
    (h : setupHand e deck (e.initState handId startingStacks dealer) seatKinds =
      some (s, deck', bb, events)) :
    ∃ s' : GameState startingStacks.length, Engine.foldDeadHands seatKinds s' = some s ∧
      (∀ i, s'.satOut i = false) ∧
      ∀ i, (s'.players i).status = (forcedPlayer e startingStacks dealer i).status := by
  obtain ⟨s₁, blinds, s₂, dealt, hblinds, hdeal, hfold, -, -⟩ := setupHand_cases h
  obtain ⟨-, -, hole, rfl, -⟩ := dealHoleCards_eq_some (List.nodup_finRange _) hdeck hdeal
  refine ⟨_, hfold, fun i => ?_, fun i => ?_⟩
  · rw [postBlinds_forced hblinds]
    rfl
  · rw [postBlinds_forced hblinds]
    rfl

theorem forcedPlayer_ne_folded (startingStacks : List ℕ) (dealer : ℕ)
    (i : Fin startingStacks.length) :
    (forcedPlayer e startingStacks dealer i).status ≠ .folded := by
  have hput : ∀ (p : PlayerState) (amount : ℕ), p.status ≠ .folded →
      (p.putAllIn amount).status ≠ .folded := by
    intro p amount hp
    rw [PlayerState.putAllIn_status]
    split
    · decide
    · exact hp
  have hfresh : (e.postAnte (freshPlayer (startingStacks.get i))).status ≠ .folded := by
    rw [postAnte_freshPlayer]
    split
    · exact hput _ _ (by simp only [freshPlayer]; split <;> decide)
    · simp only [freshPlayer]
      split <;> decide
  simp only [forcedPlayer, forcedBets]
  split_ifs
  · exact hput _ _ (hput _ _ hfresh)
  · exact hput _ _ hfresh
  · exact hput _ _ hfresh
  · exact hfresh

/-- After the setup, the folded seats are those that sit out. -/
theorem folded_iff_satOut_of_setupHand {handId : ℕ} {deck deck' : Deck}
    {startingStacks : List ℕ} {dealer : ℕ} {seatKinds : Option (List SeatKind)}
    {s : GameState startingStacks.length} {bb : ℕ} {events : List EngineEvent}
    (hdeck : deck.cursor ≤ 52)
    (h : setupHand e deck (e.initState handId startingStacks dealer) seatKinds =
      some (s, deck', bb, events)) (i : Fin startingStacks.length) :
    (s.players i).status = .folded ↔ s.satOut i = true := by
  obtain ⟨s', hfold, hsatOut, hstatus⟩ := setupHand_folds hdeck h
  have hne := @forcedPlayer_ne_folded e startingStacks dealer i
  rw [← hstatus i] at hne
  rw [(foldDeadHands_eq_some hfold).2 i, foldDeadHands_satOut hfold i, hsatOut]
  dsimp only [statusAfterFold]
  split
  case isTrue hdead => simpa using hdead
  case isFalse hkept => simpa [hne] using hkept

/-! ## Who folds -/

/-- An action of an active seat folds it if it is a fold, and leaves it in otherwise. -/
theorem performAction_status {s : GameState n} {seat : Fin n}
    (hactive : (s.players seat).status = .active) (action : Action) :
    (((Engine.performAction s seat action).1.players seat).status = .folded ↔ action = .fold) ∧
      ((Engine.performAction s seat action).1.players seat).status ≠ .out := by
  have hput : ∀ amount, ((s.players seat).putAllIn amount).status ≠ .folded ∧
      ((s.players seat).putAllIn amount).status ≠ .out := by
    intro amount
    rw [PlayerState.putAllIn_status, hactive]
    split <;> decide
  cases action with
  | fold => simp [Engine.performAction]
  | check => simp [Engine.performAction, hactive]
  | call => simpa [Engine.performAction] using hput _
  | raise amount => simp [Engine.performAction, hactive]
  | allIn =>
    simp only [Engine.performAction]
    split_ifs <;> simp

theorem performAction_satOut (s : GameState n) (seat : Fin n) (action : Action) :
    (Engine.performAction s seat action).1.satOut = s.satOut := by
  cases action with
  | allIn =>
    simp only [Engine.performAction]
    split_ifs <;> rfl
  | _ => rfl

/-- What is reported on the way from `start` to `s` about who acts and who folds. -/
structure FoldsTold (start : GameState n) (past : List (Output n)) (s : GameState n) : Prop where
  inactive : ∀ i, (start.players i).status ≠ .active →
    (s.players i).status = (start.players i).status
  out_iff : ∀ i, (s.players i).status = .out ↔ (start.players i).status = .out
  satOut_eq : s.satOut = start.satOut
  mid : ∀ event ∈ eventsOf past, event.isMid
  acted : ∀ act ∈ reportedActions past, ∃ i : Fin n, act.1 = i ∧ (start.players i).status = .active
  folded_iff : ∀ i, (s.players i).status = .folded ↔
    (start.players i).status = .folded ∨ ∃ pot, (i.val, .fold, pot) ∈ reportedActions past

namespace FoldsTold

variable {start s t : GameState n} {past outputs : List (Output n)}

theorem refl (s : GameState n) : FoldsTold s [] s where
  inactive _ _ := rfl
  out_iff _ := Iff.rfl
  satOut_eq := rfl
  mid := by simp
  acted := by simp [reportedActions]
  folded_iff i := by simp [reportedActions]

/-- An operation without an action. -/
theorem still (h : FoldsTold start past s) (hplayers : ∀ i, (t.players i).status = (s.players i).status)
    (hsatOut : t.satOut = s.satOut) (hmid : ∀ event ∈ eventsOf outputs, event.isMid)
    (hactions : reportedActions outputs = []) : FoldsTold start (past ++ outputs) t where
  inactive i hi := (hplayers i).trans (h.inactive i hi)
  out_iff i := by rw [hplayers, h.out_iff]
  satOut_eq := hsatOut.trans h.satOut_eq
  mid := by
    rw [eventsOf_append]
    exact List.forall_mem_append.mpr ⟨h.mid, hmid⟩
  acted := by
    rw [reportedActions_append, hactions, List.append_nil]
    exact h.acted
  folded_iff i := by
    rw [hplayers, reportedActions_append, hactions, List.append_nil]
    exact h.folded_iff i

/-- The answer to a prompt. -/
theorem answer {d : Decision n} (h : FoldsTold start past d.state) (obs : Observation)
    (hactive : (d.state.players d.seat).status = .active) (raw : Action) :
    FoldsTold start (past ++ .prompt d obs :: (d.answer raw).1) (d.acted raw) := by
  have hstart : (start.players d.seat).status = .active := by
    by_contra hnot
    exact hnot ((h.inactive d.seat hnot).symm.trans hactive)
  have hacted : reportedActions (past ++ .prompt d obs :: (d.answer raw).1) =
      reportedActions past ++
        [(d.seat.val, Engine.normalizeAction d.state d.seat raw, (d.acted raw).potTotal)] := by
    rw [reportedActions_append, ← (reportedActions_answer d raw).1]
    rfl
  -- an answer reports itself and touches the answering seat only
  have hothers : ∀ i, i ≠ d.seat → (d.acted raw).players i = d.state.players i :=
    fun i hi => performAction_players_of_ne hi _
  obtain ⟨hfolds, hin⟩ :=
    performAction_status hactive (Engine.normalizeAction d.state d.seat raw)
  refine ⟨fun i hi => ?_, fun i => ?_, ?_, ?_, fun act hact => ?_, fun i => ?_⟩
  · have hseat : i ≠ d.seat := fun heq => hi (heq ▸ hstart)
    rw [hothers i hseat, h.inactive i hi]
  · by_cases hseat : i = d.seat
    · subst hseat
      exact iff_of_false hin (by rw [hstart]; decide)
    · rw [hothers i hseat, h.out_iff]
  · exact (performAction_satOut _ _ _).trans h.satOut_eq
  · rw [eventsOf_append, eventsOf_cons_prompt, eventsOf_answer]
    refine List.forall_mem_append.mpr ⟨h.mid, List.forall_mem_append.mpr ⟨?_, ?_⟩⟩
    · intro event hevent
      obtain ⟨seat, total, rfl⟩ := performAction_allIn _ _ _ event hevent
      rfl
    · intro event hevent
      rw [List.mem_singleton.mp hevent]
      rfl
  · rw [hacted] at hact
    rcases List.mem_append.mp hact with hact | hact
    · exact h.acted act hact
    · rw [List.mem_singleton.mp hact]
      exact ⟨d.seat, rfl, hstart⟩
  · rw [hacted]
    by_cases hseat : i = d.seat
    · subst hseat
      -- an active seat has not folded before, so that a fold reported now is its first
      have hnever : ¬ ((start.players d.seat).status = .folded ∨
          ∃ pot, (d.seat.val, .fold, pot) ∈ reportedActions past) := by
        rw [← h.folded_iff, hactive]
        decide
      rw [Decision.acted, hfolds]
      constructor
      · intro hfold
        exact Or.inr ⟨_, List.mem_append_right _ (by rw [hfold]; exact List.mem_singleton_self _)⟩
      · rintro (hfolded | ⟨pot, hmem⟩)
        · exact absurd (Or.inl hfolded) hnever
        · rcases List.mem_append.mp hmem with hmem | hmem
          · exact absurd (Or.inr ⟨pot, hmem⟩) hnever
          · exact (Prod.mk.inj (Prod.mk.inj (List.mem_singleton.mp hmem)).2).1.symm
    · rw [hothers i hseat, h.folded_iff]
      simp [Fin.val_ne_of_ne hseat]

/-- Every operation of the engine. -/
theorem step {ok : GameState n → Prop} (h : FoldsTold start past s)
    (hstep : Passes e ok s outputs t) : FoldsTold start (past ++ outputs) t := by
  cases hstep with
  | acted d obs hactive raw hok => exact h.answer obs hactive raw
  | asked | collected | streetBegun => exact h.still (fun _ => rfl) rfl (by simp) rfl
  | boardDealt _ cards hnow hnext told htold =>
    refine h.still (fun _ => rfl) rfl ?_ ?_
    · intro event hevent
      obtain rfl : event = .boardDealt _ cards := by
        rcases htold with rfl | rfl <;> exact List.mem_singleton.mp hevent
      rfl
    · rcases htold with rfl | rfl <;> rfl

end FoldsTold

theorem foldsTold_of_passage {ok : GameState n → Prop} {s t : GameState n}
    {outputs : List (Output n)} (h : Passage e ok s outputs t) : FoldsTold s outputs t :=
  h.invariant (FoldsTold s) (fun _ _ _ _ hs hstep => hs.step hstep) [] (.refl s)

/-! ## The log of a hand that ends -/

namespace CompleteHand

/-- What the log of a hand that ends tells of who acts and who folds. -/
structure TellsSeats (hand : CompleteHand) : Prop where
  /-- The log starts and ends once. -/
  log_eq : ∃ mid, hand.log = .handStarted hand.handId hand.dealer hand.deckSeed ::
      (mid ++ [.handEnded hand.result.handId hand.result]) ∧ (∀ event ∈ mid, event.isMid) ∧
    mid.filterMap EngineEvent.action? = hand.actions
  /-- The result names each seat that was dealt in, once. -/
  seats_eq : hand.result.seats.map SeatOutcome.seat =
    ((List.finRange hand.startingStacks.length).filter fun i =>
      (hand.players i).status ≠ .out).map Fin.val
  /-- A seat that acts was dealt in and does not sit out. -/
  acted : ∀ act ∈ hand.actions, ∃ o ∈ hand.result.seats, o.seat = act.1 ∧ o.satOut = false
  /-- A seat is folded at the end if it sits out or has folded. -/
  folded_iff : ∀ o ∈ hand.result.seats, ∀ i : Fin hand.startingStacks.length, o.seat = i →
    ((hand.players i).status = .folded ↔
      o.satOut = true ∨ ∃ pot, (o.seat, .fold, pot) ∈ hand.actions)

theorem tellsSeats (hand : CompleteHand) : hand.TellsSeats := by
  have hrun : runHand hand.engine hand.handId hand.deckSeed hand.order hand.startingStacks
      hand.dealer hand.seatKinds hand.answers =
        (hand.outputs, .finished hand.result hand.players hand.chipDeltas hand.rest) :=
    Prod.ext rfl hand.finished
  obtain ⟨s, deck, canonicalBb, events, later, hsetup, houtputs, haward⟩ := runHand_passes hrun
  obtain ⟨t, hpassage, hends, -⟩ := haward.passage
  have htold := foldsTold_of_passage hpassage
  have hfolded := folded_iff_satOut_of_setupHand (Nat.zero_le 52) hsetup
  have hsetupEvents := setupHand_reports hsetup
  have hactions : hand.actions = reportedActions later := by
    have hnone := reportedActions_events (n := hand.startingStacks.length)
      (setupHand_action? hsetup)
    rw [actions, houtputs, reportedActions_append, reportedActions_append]
    change reportedActions (events.map .event) ++ _ ++ [] = _
    rw [hnone, List.nil_append, List.append_nil]
  have hseats : hand.result.seats.map SeatOutcome.seat =
      ((List.finRange hand.startingStacks.length).filter fun i =>
        (hand.players i).status ≠ .out).map Fin.val := by
    have hboth := congrArg (List.map Prod.fst) hends.seats_eq
    simpa only [List.map_map, Function.comp_def, hends.status_eq] using hboth
  refine ⟨⟨events ++ eventsOf later, ?_, ?_, ?_⟩, hseats, fun act hact => ?_,
    fun o ho i hi => ?_⟩
  · rw [log, houtputs, eventsOf_append, eventsOf_append, eventsOf_cons_event, eventsOf_events,
      eventsOf_cons_event, eventsOf_nil]
    simp
  · refine List.forall_mem_append.mpr ⟨fun event hevent => ?_, htold.mid⟩
    rcases hsetupEvents event hevent with ⟨seat, total, rfl⟩ | ⟨seat, cards, rfl⟩ <;> rfl
  · rw [List.filterMap_append, List.filterMap_eq_nil_iff.mpr (setupHand_action? hsetup),
      List.nil_append]
    exact hactions.symm
  · -- the seat was active after the setup
    obtain ⟨i, hi, hactive⟩ := htold.acted act (hactions ▸ hact)
    have hin : (t.players i).status ≠ .out := by
      rw [ne_eq, htold.out_iff, hactive]
      decide
    have hmem : i.val ∈ hand.result.seats.map SeatOutcome.seat := by
      rw [hseats]
      refine List.mem_map_of_mem (List.mem_filter.mpr ⟨List.mem_finRange i, ?_⟩)
      rw [hends.status_eq]
      exact decide_eq_true hin
    obtain ⟨o, ho, hseat⟩ := List.mem_map.mp hmem
    refine ⟨o, ho, hseat.trans hi.symm, ?_⟩
    rw [hends.satOut_eq o ho i hseat, htold.satOut_eq, ← Bool.not_eq_true, ← hfolded, hactive]
    decide
  · rw [hactions, hends.status_eq, htold.folded_iff, hfolded, hends.satOut_eq o ho i hi,
      htold.satOut_eq, hi]

/-- The result names no seat twice. -/
theorem nodup_seats (hand : CompleteHand) : (hand.result.seats.map SeatOutcome.seat).Nodup := by
  rw [hand.tellsSeats.seats_eq]
  exact ((List.nodup_finRange _).filter _).map Fin.val_injective

end CompleteHand

end VibePoker.Game
