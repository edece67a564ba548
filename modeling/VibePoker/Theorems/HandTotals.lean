import VibePoker.Dataset.Rows
import VibePoker.Stats.Sink

/-!
# Totals and rows

The sink counts over all hands, the extractor leaves a row for each hand. Within a hand they
keep in step: they see the same street and have noted the same of each seat. What they have
noted of a seat that is not in the result is nothing, since it never acted.

## Main definitions

* `StatsAgree` — the totals of a seat are the sums of its rows
* `InStep` — sink and extractor within a hand

## Main results

* `totals_agree` — so they are after any number of hands
-/

namespace VibePoker.Stats

open VibePoker.Core VibePoker.Game VibePoker.Dataset

variable {n : ℕ} {seatClass : List String}

/-! ## The statement -/

/-- The rows of one seat. -/
def rowsAt (seat : ℕ) (rows : List HandStats) : List HandStats :=
  rows.filter fun row => row.seat = seat

/-- The totals of a seat are the sums of its rows. -/
structure StatsAgree (stats : SeatStats) (rows : List HandStats) : Prop where
  hands : stats.handsDealt = rows.length
  vpip : stats.vpipHands = rows.countP HandStats.voluntaryPf
  pfr : stats.pfrHands = rows.countP HandStats.raisedPf
  aggressive : stats.aggressiveActions = (rows.map HandStats.aggressiveActions).sum
  passive : stats.passiveActions = (rows.map HandStats.passiveActions).sum
  chipDelta : stats.chipDeltaTotal = (rows.map HandStats.chipDelta).sum

/-- The log of hands, one after the other. -/
def logOf (hands : List CompleteHand) : List EngineEvent := (hands.map CompleteHand.log).flatten

/-- The seat is in the result of the hand and does not sit out. -/
def plays (seat : ℕ) (hand : CompleteHand) : Bool :=
  hand.result.seats.any fun o => o.seat = seat && !o.satOut

/-! ## One action -/

/-- The actions that both count as aggressive. -/
def isAggressive : Action → Bool
  | .raise _ | .allIn => true
  | _ => false

/-- The extractor's view of an action. -/
theorem builder_onAction (entry : Builder) (street : Street) (action : Action) :
    entry.onAction street action =
      { voluntaryPf := (street = .preflop && (isAggressive action || action = .call)) ||
          entry.voluntaryPf
        raisedPf := (street = .preflop && isAggressive action) || entry.raisedPf
        aggressiveActions := entry.aggressiveActions + (isAggressive action).toNat
        passiveActions := entry.passiveActions + (decide (action = .call)).toNat
        folded := entry.folded || action = .fold } := by
  cases action <;> simp [Builder.onAction, isAggressive]

/-- The sink's view of an action, for the seat that acts. -/
theorem onAction_self (sink : StatsSink n) (seat : Fin n) (action : Action) :
    (sink.onAction seat action).seats seat =
        { sink.seats seat with
          aggressiveActions := (sink.seats seat).aggressiveActions + (isAggressive action).toNat
          passiveActions := (sink.seats seat).passiveActions + (decide (action = .call)).toNat } ∧
      (sink.onAction seat action).vpipThisHand seat =
        ((sink.currentStreet = .preflop && (isAggressive action || action = .call)) ||
          sink.vpipThisHand seat) ∧
      (sink.onAction seat action).pfrThisHand seat =
        ((sink.currentStreet = .preflop && isAggressive action) || sink.pfrThisHand seat) := by
  by_cases hstreet : sink.currentStreet = .preflop
  · cases action <;> simp [StatsSink.onAction, isAggressive, hstreet]
  · cases action <;> simp [StatsSink.onAction, isAggressive, hstreet]

/-- For the other seats nothing changes. -/
theorem onAction_of_ne (sink : StatsSink n) {seat i : Fin n} (hi : i ≠ seat) (action : Action) :
    (sink.onAction seat action).seats i = sink.seats i ∧
      (sink.onAction seat action).vpipThisHand i = sink.vpipThisHand i ∧
      (sink.onAction seat action).pfrThisHand i = sink.pfrThisHand i := by
  by_cases hstreet : sink.currentStreet = .preflop
  · cases action <;> simp [StatsSink.onAction, hstreet, hi]
  · cases action <;> simp [StatsSink.onAction, hstreet, hi]

theorem onAction_street (sink : StatsSink n) (seat : Fin n) (action : Action) :
    (sink.onAction seat action).currentStreet = sink.currentStreet := by
  cases action <;> rfl

/-! ## Within a hand -/

/-- What sink and extractor have noted of a seat since `base`. -/
structure InStep (base : SeatStats) (seat : Fin n) (sink : StatsSink n) (x : Extractor) :
    Prop where
  street : sink.currentStreet = x.street
  stats : sink.seats seat =
    { base with
      aggressiveActions := base.aggressiveActions + (x.builder seat).aggressiveActions
      passiveActions := base.passiveActions + (x.builder seat).passiveActions }
  vpip : sink.vpipThisHand seat = (x.builder seat).voluntaryPf
  pfr : sink.pfrThisHand seat = (x.builder seat).raisedPf

variable {base : SeatStats} {seat : Fin n} {sink : StatsSink n} {x : Extractor}

theorem InStep.onAction (h : InStep base seat sink x) (other pot : ℕ) (action : Action) :
    InStep base seat (sink.onEvent (.actionTaken other action pot))
      (x.onEvent seatClass (.actionTaken other action pot)) := by
  have hstreet : (x.onEvent seatClass (.actionTaken other action pot)).street = x.street := rfl
  by_cases hseat : seat.val = other
  · subst hseat
    obtain ⟨hstats, hvpip, hpfr⟩ := onAction_self sink seat action
    rw [StatsSink.onEvent, dif_pos seat.isLt]
    refine ⟨?_, ?_, ?_, ?_⟩
    · exact (onAction_street sink seat action).trans h.street
    · rw [hstats, h.stats, Extractor.builder_actionTaken, if_pos rfl, builder_onAction]
      simp only [Nat.add_assoc]
    · rw [hvpip, h.vpip, h.street, Extractor.builder_actionTaken, if_pos rfl, builder_onAction]
    · rw [hpfr, h.pfr, h.street, Extractor.builder_actionTaken, if_pos rfl, builder_onAction]
  · have hbuilder : (x.onEvent seatClass (.actionTaken other action pot)).builder seat =
        x.builder seat := by rw [Extractor.builder_actionTaken, if_neg hseat]
    rw [StatsSink.onEvent]
    split
    case isTrue hlt =>
      have hne : seat ≠ ⟨other, hlt⟩ := fun heq => hseat (congrArg Fin.val heq)
      obtain ⟨hstats, hvpip, hpfr⟩ := onAction_of_ne sink hne action
      refine ⟨?_, ?_, ?_, ?_⟩
      · exact (onAction_street sink _ action).trans h.street
      · rw [hstats, hbuilder, h.stats]
      · rw [hvpip, hbuilder, h.vpip]
      · rw [hpfr, hbuilder, h.pfr]
    case isFalse =>
      exact ⟨h.street, hbuilder ▸ h.stats, hbuilder ▸ h.vpip, hbuilder ▸ h.pfr⟩

/-- Between start and end they stay in step, and no row is pushed. -/
theorem InStep.onEvent (h : InStep base seat sink x) {event : EngineEvent} (hmid : event.isMid) :
    InStep base seat (sink.onEvent event) (x.onEvent seatClass event) := by
  cases event with
  | handStarted | handEnded => cases hmid
  | holeCardsDealt | playerAllIn => exact h
  | boardDealt street cards => exact ⟨rfl, h.stats, h.vpip, h.pfr⟩
  | actionTaken other action pot => exact h.onAction other pot action

theorem InStep.onEvents (h : InStep base seat sink x) {mid : List EngineEvent}
    (hmid : ∀ event ∈ mid, event.isMid) :
    InStep base seat (sink.onEvents mid) (mid.foldl (Extractor.onEvent seatClass) x) := by
  induction mid generalizing sink x with
  | nil => exact h
  | cons event mid ih =>
    exact ih (h.onEvent (hmid event List.mem_cons_self))
      fun later hlater => hmid later (List.mem_cons_of_mem _ hlater)

/-! ## The end of a hand -/

/-- The outcome of a seat that does not sit out. -/
def outcomeAt (seat : ℕ) (outcomes : List SeatOutcome) : Option SeatOutcome :=
  outcomes.find? fun o => o.seat = seat && !o.satOut

theorem outcomeAt_cons_of_ne {seat : ℕ} {o : SeatOutcome} (h : ¬ (o.seat = seat ∧ o.satOut = false))
    (outcomes : List SeatOutcome) : outcomeAt seat (o :: outcomes) = outcomeAt seat outcomes := by
  rw [outcomeAt, List.find?_cons_of_neg (by simpa using h)]
  rfl

theorem outcomeAt_eq_none {seat : ℕ} {outcomes : List SeatOutcome}
    (h : seat ∉ outcomes.map SeatOutcome.seat) : outcomeAt seat outcomes = none := by
  refine List.find?_eq_none.mpr fun o ho => ?_
  have hne : o.seat ≠ seat := fun heq => h (heq ▸ List.mem_map_of_mem ho)
  simp [hne]

/-- An outcome of the seat that does not sit out is its only one. -/
theorem outcomeAt_cons_of_plays {seat : ℕ} {o : SeatOutcome} {outcomes : List SeatOutcome}
    (hnew : o.seat ∉ outcomes.map SeatOutcome.seat) (hplays : o.seat = seat ∧ o.satOut = false) :
    outcomeAt seat outcomes = none ∧ outcomeAt seat (o :: outcomes) = some o :=
  ⟨outcomeAt_eq_none (hplays.1 ▸ hnew), List.find?_cons_of_pos (by simpa using hplays)⟩

/-- The sink credits the seat that does not sit out. -/
theorem onOutcome_seats (pot : ℕ) (sink : StatsSink n) (o : SeatOutcome) (seat : Fin n) :
    (sink.onOutcome pot o).seats seat =
        (if o.seat = seat ∧ o.satOut = false then
          StatsSink.credit (sink.seats seat) o (sink.vpipThisHand seat) (sink.pfrThisHand seat) pot
        else sink.seats seat) ∧
      (sink.onOutcome pot o).vpipThisHand = sink.vpipThisHand ∧
      (sink.onOutcome pot o).pfrThisHand = sink.pfrThisHand := by
  rw [StatsSink.onOutcome]
  split
  case isFalse hout =>
    have hne : o.seat ≠ seat := fun heq => hout (heq ▸ seat.isLt)
    simp [hne]
  case isTrue hlt =>
    split
    case isTrue hsatOut => simp [hsatOut]
    case isFalse hplays =>
      refine ⟨?_, rfl, rfl⟩
      by_cases hseat : o.seat = seat
      · obtain rfl : seat = ⟨o.seat, hlt⟩ := Fin.ext hseat.symm
        simp [hplays]
      · have hne : seat ≠ ⟨o.seat, hlt⟩ := fun heq => hseat (congrArg Fin.val heq).symm
        simp [hseat, hne]

/-- The totals of a seat after a result that names no seat twice. -/
theorem foldl_onOutcome_seats (pot : ℕ) (sink : StatsSink n) {outcomes : List SeatOutcome}
    (hnodup : (outcomes.map SeatOutcome.seat).Nodup) (seat : Fin n) :
    (outcomes.foldl (StatsSink.onOutcome pot) sink).seats seat =
      match outcomeAt seat outcomes with
      | none => sink.seats seat
      | some o =>
        StatsSink.credit (sink.seats seat) o (sink.vpipThisHand seat) (sink.pfrThisHand seat)
          pot := by
  induction outcomes generalizing sink with
  | nil => rfl
  | cons o outcomes ih =>
    rw [List.map_cons, List.nodup_cons] at hnodup
    obtain ⟨hseats, hvpip, hpfr⟩ := onOutcome_seats pot sink o seat
    rw [List.foldl_cons, ih _ hnodup.2, hseats, hvpip, hpfr]
    by_cases hplays : o.seat = seat ∧ o.satOut = false
    · obtain ⟨hnone, hsome⟩ := outcomeAt_cons_of_plays hnodup.1 hplays
      rw [hnone, hsome, if_pos hplays]
    · rw [outcomeAt_cons_of_ne hplays, if_neg hplays]

/-- The rows of a seat with a class, from such a result. -/
theorem rowsAt_filterMap {seat : ℕ} {ownClass : String} (hclass : seatClass[seat]? = some ownClass)
    (handId : ℕ) (noted : ℕ → Builder) {outcomes : List SeatOutcome}
    (hnodup : (outcomes.map SeatOutcome.seat).Nodup) :
    rowsAt seat (outcomes.filterMap (Extractor.row? seatClass handId noted)) =
      match outcomeAt seat outcomes with
      | none => []
      | some o => [Extractor.row seatClass handId (noted seat) o ownClass] := by
  induction outcomes with
  | nil => rfl
  | cons o outcomes ih =>
    rw [List.map_cons, List.nodup_cons] at hnodup
    have hrest := ih hnodup.2
    by_cases hplays : o.seat = seat ∧ o.satOut = false
    · obtain ⟨hnone, hsome⟩ := outcomeAt_cons_of_plays hnodup.1 hplays
      have hrow : Extractor.row? seatClass handId noted o =
          some (Extractor.row seatClass handId (noted seat) o ownClass) := by
        simp [Extractor.row?, hplays, hclass]
      rw [hnone] at hrest
      have hat : (Extractor.row seatClass handId (noted seat) o ownClass).seat = seat := hplays.1
      rw [hsome, List.filterMap_cons_some hrow, rowsAt, List.filter_cons_of_pos (by simpa using hat)]
      exact congrArg _ hrest
    · rw [outcomeAt_cons_of_ne hplays, ← hrest]
      cases hrow : Extractor.row? seatClass handId noted o with
      | none => rw [List.filterMap_cons_none hrow]
      | some r =>
        rw [List.filterMap_cons_some hrow, rowsAt, List.filter_cons_of_neg]
        · rfl
        -- the row is that of another seat
        rw [Extractor.row?] at hrow
        split at hrow
        case isTrue => cases hrow
        case isFalse hsatOut =>
          obtain ⟨ownClass', -, rfl⟩ := Option.map_eq_some_iff.mp hrow
          have hne : o.seat ≠ seat := fun heq => hplays ⟨heq, by simpa using hsatOut⟩
          exact fun hat => hne (of_decide_eq_true hat)

/-! ## Whole hands -/

/-- Before the end of a hand, sink and extractor are in step. -/
theorem inStep_beforeEnd (sink : StatsSink n) (x : Extractor) (hand : CompleteHand)
    (seat : Fin n) :
    InStep (sink.seats seat) seat (sink.onEvents hand.log.dropLast)
      (x.beforeEnd seatClass hand) := by
  obtain ⟨mid, hlog, hmid, -⟩ := hand.tellsSeats.log_eq
  have hstarted : InStep (sink.seats seat) seat
      (sink.onEvent (.handStarted hand.handId hand.dealer hand.deckSeed))
      (x.onEvent seatClass (.handStarted hand.handId hand.dealer hand.deckSeed)) :=
    ⟨rfl, rfl, rfl, rfl⟩
  rw [Extractor.beforeEnd, hlog, ← List.cons_append, List.dropLast_concat, List.foldl_cons,
    StatsSink.onEvents, List.foldl_cons]
  exact hstarted.onEvents hmid

/-- A hand credits a seat with what its row says. -/
theorem StatsAgree.credit {stats : SeatStats} {rows : List HandStats} (h : StatsAgree stats rows)
    (entry : Builder) (o : SeatOutcome) (handId pot : ℕ) (ownClass : String) :
    StatsAgree
      (StatsSink.credit
        { stats with
          aggressiveActions := stats.aggressiveActions + entry.aggressiveActions
          passiveActions := stats.passiveActions + entry.passiveActions }
        o entry.voluntaryPf entry.raisedPf pot)
      (rows ++ [Extractor.row seatClass handId entry o ownClass]) where
  hands := by simp [StatsSink.credit, h.hands]
  vpip := by
    simp only [StatsSink.credit, h.vpip, List.countP_append, List.countP_singleton, Extractor.row]
    split <;> rfl
  pfr := by
    simp only [StatsSink.credit, h.pfr, List.countP_append, List.countP_singleton, Extractor.row]
    split <;> rfl
  aggressive := by simp [StatsSink.credit, h.aggressive, Extractor.row]
  passive := by simp [StatsSink.credit, h.passive, Extractor.row]
  chipDelta := by simp [StatsSink.credit, h.chipDelta, Extractor.row]

theorem plays_eq (seat : ℕ) (hand : CompleteHand) :
    plays seat hand = (outcomeAt seat hand.result.seats).isSome := by
  rw [plays, outcomeAt, ← List.isSome_find?]

/-- Totals and rows agree after a hand if they did before it. -/
theorem StatsAgree.hand {sink : StatsSink n} {x : Extractor} {seat : Fin n}
    (h : StatsAgree (sink.seats seat) (rowsAt seat x.out)) (hclass : seat < seatClass.length)
    (hand : CompleteHand) :
    StatsAgree ((sink.onEvents hand.log).seats seat)
        (rowsAt seat (hand.log.foldl (Extractor.onEvent seatClass) x).out) ∧
      (rowsAt seat (hand.log.foldl (Extractor.onEvent seatClass) x).out).length =
        (rowsAt seat x.out).length + (plays seat hand).toNat := by
  have hstep : InStep (sink.seats seat) seat (sink.onEvents hand.log.dropLast)
      (x.beforeEnd seatClass hand) := inStep_beforeEnd sink x hand seat
  have hrows := rowsAt_filterMap (List.getElem?_eq_getElem hclass) hand.handId
    (x.beforeEnd seatClass hand).builder hand.nodup_seats
  have hseats := foldl_onOutcome_seats (StatsSink.potWon hand.result)
    (sink.onEvents hand.log.dropLast) hand.nodup_seats seat
  have hended : (sink.onEvents hand.log).seats seat = (hand.result.seats.foldl
      (StatsSink.onOutcome (StatsSink.potWon hand.result))
      (sink.onEvents hand.log.dropLast)).seats seat := by
    obtain ⟨mid, hlog, -⟩ := hand.tellsSeats.log_eq
    have hlast : hand.log = hand.log.dropLast ++
        [.handEnded hand.result.handId hand.result] := by
      rw [hlog, ← List.cons_append, List.dropLast_concat]
    conv_lhs => rw [hlast, StatsSink.onEvents, List.foldl_append, List.foldl_cons, List.foldl_nil]
    rfl
  have hplays := plays_eq seat hand
  rw [Extractor.foldl_log, rowsAt, List.filter_append, ← rowsAt, ← rowsAt, hrows, hended, hseats,
    hstep.stats, hstep.vpip, hstep.pfr, hplays]
  cases hout : outcomeAt seat hand.result.seats with
  | some o => exact ⟨h.credit _ o _ _ _, by simp⟩
  | none =>
    -- a seat that is not in the result has not acted, and nothing is noted of it
    have hnone : (x.beforeEnd seatClass hand).builder seat = {} := by
      refine (Extractor.beforeEnd_builder x hand seat).2 fun act hact hseat => ?_
      obtain ⟨o, ho, hoseat, hsatOut⟩ := hand.tellsSeats.acted act hact
      refine List.find?_eq_none.mp hout o ho ?_
      simp [hoseat, hseat, hsatOut]
    rw [hnone]
    exact ⟨by simpa using h, by simp⟩

/-! ## Any number of hands -/

/-- For every log of complete hands and every seat with a class, the totals of the sink are
the sums of the rows of the extractor, and both count the hands in which the seat is dealt
in and does not sit out. -/
theorem totals_agree (hands : List CompleteHand) (n : ℕ) (seatClass : List String) (seat : Fin n)
    (hclass : seat < seatClass.length) :
    StatsAgree (((StatsSink.new n).onEvents (logOf hands)).seats seat)
        (rowsAt seat (extractHandStats (logOf hands) seatClass)) ∧
      (rowsAt seat (extractHandStats (logOf hands) seatClass)).length =
        hands.countP (plays seat) := by
  have hrun : ∀ (sink : StatsSink n) (x : Extractor),
      StatsAgree (sink.seats seat) (rowsAt seat x.out) →
      StatsAgree ((sink.onEvents (logOf hands)).seats seat)
          (rowsAt seat ((logOf hands).foldl (Extractor.onEvent seatClass) x).out) ∧
        (rowsAt seat ((logOf hands).foldl (Extractor.onEvent seatClass) x).out).length =
          (rowsAt seat x.out).length + hands.countP (plays seat) := by
    induction hands with
    | nil => exact fun sink x h => ⟨h, rfl⟩
    | cons hand hands ih =>
      intro sink x h
      obtain ⟨hagree, hlength⟩ := h.hand hclass hand
      obtain ⟨hagree', hlength'⟩ := ih _ _ hagree
      have hsplit : logOf (hand :: hands) = hand.log ++ logOf hands := rfl
      rw [hsplit, StatsSink.onEvents, List.foldl_append, List.foldl_append, List.countP_cons]
      refine ⟨hagree', hlength'.trans ?_⟩
      rw [hlength]
      cases plays seat hand with
      | true =>
        simp only [Bool.toNat_true, if_true]
        omega
      | false => simp
  obtain ⟨hagree, hlength⟩ := hrun (.new n) {} ⟨rfl, rfl, rfl, rfl, rfl, rfl⟩
  exact ⟨hagree, hlength.trans (Nat.zero_add _)⟩

/-! ## A small blind that folds -/

/-- A hand of two seats with blinds of 1 and 2, in which the small blind folds. -/
def foldedHand : CompleteHand :=
  .ofFinished ⟨.noLimitHoldem 1 2, ⟨fun _ => 0⟩⟩ 1 0 (fun i => ⟨i⟩) [100, 100] 0 none [.fold]
    (by decide +kernel)

/-- Totals and rows of the big blind agree over two such hands. -/
theorem totals_agree_folded_hands :
    StatsAgree (((StatsSink.new 2).onEvents (logOf [foldedHand, foldedHand])).seats 1)
        (rowsAt 1 (extractHandStats (logOf [foldedHand, foldedHand]) ["nit", "lag"])) ∧
      (rowsAt 1 (extractHandStats (logOf [foldedHand, foldedHand]) ["nit", "lag"])).length =
        [foldedHand, foldedHand].countP (plays 1) :=
  totals_agree [foldedHand, foldedHand] 2 ["nit", "lag"] 1 (by decide)

end VibePoker.Stats
