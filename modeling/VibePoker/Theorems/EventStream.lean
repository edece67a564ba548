import VibePoker.Game.Passage

/-!
# The event stream of a hand

What a hand that ends hands to its sink: its start and its end once, the hole cards of the
seats with chips, one action for each prompt, and the board street by street. A seat that
becomes all-in is reported once, unless its ante takes its last chip and it posts a blind
after that.

## Main definitions

* `BecomesAllIn` — the seats that become all-in in a hand
* `Exhaustive` — streams that report all that happens in a hand, each thing once

## Main results

* `tellsAll_iff` — the hands with such a stream
* `all_in_twice` — a hand without one
-/

namespace VibePoker.Game

open VibePoker.Core VibePoker.CS

variable {n : ℕ} {e : Engine}

/-! ## What the events report -/

def EngineEvent.isStart : EngineEvent → Bool
  | .handStarted _ _ _ => true
  | _ => false

def EngineEvent.isEnd : EngineEvent → Bool
  | .handEnded _ _ => true
  | _ => false

/-- The seat that is dealt hole cards. -/
def EngineEvent.dealtSeat? : EngineEvent → Option ℕ
  | .holeCardsDealt seat _ => some seat
  | _ => none

/-- The seat that acted. -/
def EngineEvent.actedSeat? : EngineEvent → Option ℕ
  | .actionTaken seat _ _ => some seat
  | _ => none

/-- The seat that is reported all-in. -/
def EngineEvent.allInSeat? : EngineEvent → Option ℕ
  | .playerAllIn seat _ => some seat
  | _ => none

/-- The seats that the events report all-in. -/
def allInSeats (events : List EngineEvent) : List ℕ := events.filterMap EngineEvent.allInSeat?

@[simp] theorem allInSeats_nil : allInSeats [] = [] := rfl

@[simp] theorem allInSeats_append (events later : List EngineEvent) :
    allInSeats (events ++ later) = allInSeats events ++ allInSeats later := List.filterMap_append

/-! ## The statement -/

section Hand

variable (e : Engine) (handId deckSeed : ℕ) (startingStacks : List ℕ) (dealer : ℕ)

/-- The seat is all-in after the forced bets or at the end of the hand. All-in seats stay
so, but for dead hands, which are folded after the forced bets. -/
def BecomesAllIn (players : Fin startingStacks.length → PlayerState)
    (i : Fin startingStacks.length) : Prop :=
  (forcedPlayer e startingStacks dealer i).status = .allIn ∨ (players i).status = .allIn

/-- A stream of a hand that reports all that happens, each thing once. -/
structure Exhaustive (outputs : List (Output startingStacks.length)) (result : HandResult)
    (players : Fin startingStacks.length → PlayerState) (award : Option Award) : Prop where
  started : ∃ later, eventsOf outputs = .handStarted handId dealer deckSeed :: later ∧
    ∀ event ∈ later, event.isStart = false
  ended : ∃ before, eventsOf outputs = before ++ [.handEnded result.handId result] ∧
    ∀ event ∈ before, event.isEnd = false
  /-- The hole cards of each seat with chips, in seat order. -/
  dealt : (eventsOf outputs).filterMap EngineEvent.dealtSeat? =
    ((List.finRange startingStacks.length).filter fun i => 0 < startingStacks.get i).map Fin.val
  /-- One action for each prompt, of the seat that was asked. -/
  acted : (eventsOf outputs).filterMap EngineEvent.actedSeat? =
    (promptsOf outputs).map fun p => p.1.seat.val
  allIn_iff : ∀ seat, seat ∈ allInSeats (eventsOf outputs) ↔
    ∃ i : Fin startingStacks.length, i.val = seat ∧ BecomesAllIn e startingStacks dealer players i
  allIn_once : (allInSeats (eventsOf outputs)).Nodup
  /-- The boards are the first ones of flop, turn and river. -/
  boards : (boardsOf outputs).map (fun dealt => (dealt.1, dealt.2.length)) <+: Engine.postflop
  board_eq : ((boardsOf outputs).map Prod.snd).flatten = result.board
  shown : award = some .showdown →
    (boardsOf outputs).map (fun dealt => (dealt.1, dealt.2.length)) = Engine.postflop

/-- If the hand ends, its stream reports all that happened. -/
def TellsAll (order : Fin 52 → Card) (seatKinds : Option (List SeatKind))
    (answers : List Action) : Prop :=
  ∀ result players chipDeltas rest,
    (runHand e handId deckSeed order startingStacks dealer seatKinds answers).2 =
        .finished result players chipDeltas rest →
      Exhaustive e handId deckSeed startingStacks dealer
        (runHand e handId deckSeed order startingStacks dealer seatKinds answers).1 result players
        (handAward e handId order startingStacks dealer seatKinds answers)

/-- No seat that posts a blind has lost its last chip to the ante. -/
def BlindsOutlastAnte : Prop :=
  ∀ i : Fin startingStacks.length,
    (postsSb e startingStacks dealer i ∨ postsBb e startingStacks dealer i) →
      e.rules.ante = 0 ∨ e.rules.ante < startingStacks.get i

end Hand

/-! ## Forced bets -/

theorem allInSeats_post (s : GameState n) (seat : Fin n) (amount : ℕ) :
    allInSeats (Engine.post s seat amount).2 =
      (if (s.players seat).stack ≤ amount then [seat] else []).map Fin.val := by
  simp only [Engine.post, PlayerState.putAllIn_stack, PlayerState.put_stack, Nat.sub_eq_zero_iff_le]
  split <;> rfl

theorem allInSeats_filterMap (seats : List (Fin n)) (cond : Fin n → Prop) [DecidablePred cond]
    (total : Fin n → ℕ) :
    allInSeats (seats.filterMap fun i =>
        if cond i then some (.playerAllIn i (total i)) else none) =
      (seats.filter cond).map Fin.val := by
  induction seats with
  | nil => rfl
  | cons i seats ih =>
    by_cases hi : cond i
    · simp only [List.filterMap_cons, hi, if_true, decide_true, List.filter_cons_of_pos,
        List.map_cons]
      rw [← ih]
      rfl
    · simpa [List.filterMap_cons, hi] using ih

theorem count_filter_finRange (p : Fin n → Bool) (i : Fin n) :
    ((List.finRange n).filter p).count i = if p i then 1 else 0 := by
  by_cases hi : p i
  · rw [List.count_filter hi, if_pos hi]
    exact List.count_eq_one_of_mem (List.nodup_finRange n) (List.mem_finRange i)
  · rw [if_neg hi, List.count_eq_zero]
    simp [hi]

/-- The seats whose ante takes their last chip are reported, in seat order. -/
theorem allInSeats_antesPosted (s : GameState n) :
    allInSeats (antesPosted e s).2 = ((List.finRange n).filter fun i =>
      decide (0 < e.rules.ante ∧ (s.players i).status = .active ∧
        (s.players i).stack ≤ e.rules.ante)).map Fin.val := by
  rw [antesPosted]
  split
  case isTrue hante =>
    rw [Engine.postAntes, allInSeats_filterMap]
    congr 1
    refine List.filter_congr fun i _ => ?_
    by_cases hactive : (s.players i).status = .active
    · simp [Engine.postAnte, hactive, PlayerState.put_stack, Nat.sub_eq_zero_iff_le, hante]
    · simp [hactive]
  case isFalse hante => simp [hante]

/-- The blind seats whose blind takes their last chip are reported. -/
theorem allInSeats_postBlinds {s s' : GameState n} {events : List EngineEvent}
    (hpost : e.postBlinds s = some (s', events)) (hne : sbSeat s ≠ bbSeat s) :
    ∃ seats : List (Fin n), allInSeats events = seats.map Fin.val ∧ ∀ i, seats.count i =
      (if i.val = sbSeat s ∧ (s.players i).stack ≤ e.rules.smallBlind then 1 else 0) +
        if i.val = bbSeat s ∧ (s.players i).stack ≤ e.rules.bigBlind then 1 else 0 := by
  rw [Engine.postBlinds] at hpost
  split at hpost
  case isFalse => simp at hpost
  case isTrue hrange =>
    obtain ⟨-, rfl⟩ := Prod.mk.inj (Option.some.inj hpost)
    rw [allInSeats_append, allInSeats_post, allInSeats_post, ← List.map_append]
    refine ⟨_, rfl, fun i => ?_⟩
    -- the small blind does not touch the seat of the big blind
    have hother : (⟨bbSeat s, hrange.2⟩ : Fin n) ≠ ⟨sbSeat s, hrange.1⟩ := by
      simpa [Fin.ext_iff] using hne.symm
    rw [List.count_append, Engine.post, setPlayer_of_ne s _ hother]
    have hcount : ∀ (seat : Fin n) (amount : ℕ),
        (if (s.players seat).stack ≤ amount then [seat] else []).count i =
          if i.val = seat.val ∧ (s.players i).stack ≤ amount then 1 else 0 := by
      intro seat amount
      by_cases hi : i = seat
      · subst hi
        split <;> simp_all
      · have hval : i.val ≠ seat.val := fun h => hi (Fin.ext h)
        split <;> simp [hval, Ne.symm hi]
    rw [hcount, hcount]

/-- The seats that are still in are dealt hole cards, in the order listed. -/
theorem dealtSeats_dealHoleCards {seats : List (Fin n)} {s s' : GameState n} {deck deck' : Deck}
    {events : List EngineEvent}
    (hdeal : Engine.dealHoleCards seats s deck = some (s', deck', events)) :
    events.filterMap EngineEvent.dealtSeat? =
      (seats.filter fun i => (s.players i).stillIn).map Fin.val := by
  induction seats generalizing s deck events with
  | nil =>
    obtain ⟨-, -, rfl⟩ : s = s' ∧ deck = deck' ∧ [] = events := by
      simpa [Engine.dealHoleCards] using hdeal
    rfl
  | cons i seats ih =>
    rcases dealHoleCards_cons hdeal with
      ⟨first, _, second, _, later, hin, -, -, hrest, rfl⟩ | ⟨hout, hrest⟩
    · have hlater := ih hrest
      simp only [setPlayer_holeCards_stillIn] at hlater
      rw [List.filterMap_cons, hlater, List.filter_cons, if_pos hin, List.map_cons]
      rfl
    · rw [List.filter_cons, if_neg hout]
      exact ih hrest

section Setup

variable {handId : ℕ} {startingStacks : List ℕ} {dealer : ℕ} {seatKinds : Option (List SeatKind)}
  {deck deck' : Deck} {s : GameState startingStacks.length} {canonicalBb : ℕ}
  {events : List EngineEvent}

/-- The setup deals hole cards to the seats with chips. -/
theorem setupHand_dealt (hfunded : 0 < fundedSeats startingStacks)
    (h : setupHand e deck (e.initState handId startingStacks dealer) seatKinds =
      some (s, deck', canonicalBb, events)) :
    events.filterMap EngineEvent.dealtSeat? =
      ((List.finRange startingStacks.length).filter fun i =>
        0 < startingStacks.get i).map Fin.val := by
  obtain ⟨s₁, blinds, s₂, dealt, hpost, hdeal, -, -, rfl⟩ := setupHand_cases h
  have hnone : ((antesPosted e (e.initState handId startingStacks dealer)).2 ++ blinds).filterMap
      EngineEvent.dealtSeat? = [] := by
    refine List.filterMap_eq_nil_iff.mpr fun event hevent => ?_
    obtain ⟨seat, total, rfl⟩ := forced_allIn hpost event hevent
    rfl
  rw [List.filterMap_append, hnone, List.nil_append, dealtSeats_dealHoleCards hdeal,
    postBlinds_forced hpost]
  simp only [forcedPlayer_stillIn hfunded]

/-- How often the setup reports a seat all-in: when the ante takes its last chip, and when
it posts a blind and has nothing left then. -/
def forcedReports (e : Engine) (startingStacks : List ℕ) (dealer : ℕ)
    (i : Fin startingStacks.length) : ℕ :=
  (if 0 < startingStacks.get i ∧ startingStacks.get i ≤ e.rules.ante then 1 else 0) +
    if (postsSb e startingStacks dealer i ∨ postsBb e startingStacks dealer i) ∧
      startingStacks.get i ≤ e.rules.ante + blindsOf e startingStacks dealer i then 1
    else 0

theorem setupHand_allIn (hfunded : 2 ≤ fundedSeats startingStacks)
    (h : setupHand e deck (e.initState handId startingStacks dealer) seatKinds =
      some (s, deck', canonicalBb, events)) :
    ∃ seats : List (Fin startingStacks.length), allInSeats events = seats.map Fin.val ∧
      ∀ i, seats.count i = forcedReports e startingStacks dealer i := by
  obtain ⟨s₁, blinds, s₂, dealt, hpost, hdeal, -, -, rfl⟩ := setupHand_cases h
  obtain ⟨hsb, hbb⟩ := @antesPosted_blinds e handId startingStacks dealer
  have hne : sbSeat (antesPosted e (e.initState handId startingStacks dealer)).1 ≠
      bbSeat (antesPosted e (e.initState handId startingStacks dealer)).1 := by
    rw [hsb, hbb]
    exact blindSeats_ne hfunded
  obtain ⟨seats, hseats, hcount⟩ := allInSeats_postBlinds hpost hne
  have hnone : allInSeats dealt = [] := by
    refine List.filterMap_eq_nil_iff.mpr fun event hevent => ?_
    obtain ⟨seat, cards, rfl⟩ := dealHoleCards_dealt hdeal event hevent
    rfl
  rw [allInSeats_append, allInSeats_append, hnone, List.append_nil, hseats,
    allInSeats_antesPosted, ← List.map_append]
  refine ⟨_, rfl, fun i => ?_⟩
  rw [List.count_append, hcount, antesPosted_players, postAnte_stack, hsb, hbb,
    count_filter_finRange, forcedReports]
  congr 1
  · rw [initState_players]
    generalize startingStacks.get i = stack
    refine if_congr ?_ rfl rfl
    by_cases hpos : 0 < stack
    · simp only [freshPlayer, if_pos hpos, decide_eq_true_eq, true_and]
      omega
    · simp [freshPlayer, hpos]
  · -- the blinds find the stack that the ante left, and no seat posts both
    have hnot := @not_postsBoth e startingStacks dealer hfunded i
    simp only [postsSb, postsBb, blindsOf, decide_eq_true_eq, decide_eq_false_iff_not] at hnot ⊢
    split_ifs <;> omega

end Setup

/-! ## The operations of a hand -/

/-- An action reports its seat all-in exactly if it puts it all-in. -/
theorem allInSeats_performAction {s : GameState n} {seat : Fin n}
    (hactive : (s.players seat).status = .active) (action : Action) :
    allInSeats (Engine.performAction s seat action).2.2 =
      (if ((Engine.performAction s seat action).1.players seat).status = .allIn then [seat]
        else []).map Fin.val := by
  cases action with
  | fold => simp [Engine.performAction]
  | check => simp [Engine.performAction, hactive]
  | call =>
    simp only [Engine.performAction, setPlayer_self, PlayerState.putAllIn_status, hactive,
      PlayerState.putAllIn_stack, PlayerState.put_stack, Nat.sub_eq_zero_iff_le]
    split <;> simp [allInSeats, EngineEvent.allInSeat?]
  | raise amount => simp [Engine.performAction, hactive]
  | allIn =>
    simp only [Engine.performAction]
    split_ifs <;> simp_all [allInSeats, EngineEvent.allInSeat?]

theorem Acts.stack_pos {p p' : PlayerState} (h : Acts p p') (hactive : p'.status = .active) :
    0 < p'.stack := by
  cases h with
  | folds => cases hactive
  | pays amount hless =>
    rw [PlayerState.put_stack]
    omega
  | allIn => cases hactive

/-- The event is of the kind that operations between the setup and the award report. -/
def EngineEvent.IsMidHand (event : EngineEvent) : Prop :=
  event.isStart = false ∧ event.isEnd = false ∧ event.dealtSeat? = none

/-- What is reported on the way from `start` to `s`: one action for each prompt, and the
seats that became all-in on the way. -/
structure Reported (start : GameState n) (past : List (Output n)) (s : GameState n) : Prop where
  stack_pos : ∀ i, (s.players i).status = .active → 0 < (s.players i).stack
  inactive : ∀ i, (start.players i).status ≠ .active →
    (s.players i).status = (start.players i).status
  midHand : ∀ event ∈ eventsOf past, event.IsMidHand
  acted : (eventsOf past).filterMap EngineEvent.actedSeat? =
    (promptsOf past).map fun p => p.1.seat.val
  allIn : ∃ seats : List (Fin n), allInSeats (eventsOf past) = seats.map Fin.val ∧
    ∀ i, seats.count i + (if (start.players i).status = .allIn then 1 else 0) =
      if (s.players i).status = .allIn then 1 else 0

namespace Reported

variable {start s t : GameState n} {past outputs : List (Output n)}

theorem refl (hpos : ∀ i, (s.players i).status = .active → 0 < (s.players i).stack) :
    Reported s [] s where
  stack_pos := hpos
  inactive _ _ := rfl
  midHand := by simp
  acted := rfl
  allIn := ⟨[], rfl, by simp⟩

/-- An operation that leaves the seats as they are. -/
theorem still (h : Reported start past s)
    (hseats : ∀ i, (t.players i).status = (s.players i).status ∧
      (t.players i).stack = (s.players i).stack)
    (hprompts : promptsOf outputs = [])
    (hevents : ∀ event ∈ eventsOf outputs,
      event.IsMidHand ∧ event.actedSeat? = none ∧ event.allInSeat? = none) :
    Reported start (past ++ outputs) t where
  stack_pos i hi := by
    rw [(hseats i).2]
    exact h.stack_pos i ((hseats i).1.symm.trans hi)
  inactive i hi := (hseats i).1.trans (h.inactive i hi)
  midHand := by
    rw [eventsOf_append]
    exact List.forall_mem_append.mpr ⟨h.midHand, fun event hevent => (hevents event hevent).1⟩
  acted := by
    have hnone : (eventsOf outputs).filterMap EngineEvent.actedSeat? = [] :=
      List.filterMap_eq_nil_iff.mpr fun event hevent => (hevents event hevent).2.1
    rw [eventsOf_append, List.filterMap_append, hnone, promptsOf_append, hprompts, h.acted,
      List.append_nil, List.append_nil]
  allIn := by
    have hnone : allInSeats (eventsOf outputs) = [] :=
      List.filterMap_eq_nil_iff.mpr fun event hevent => (hevents event hevent).2.2
    obtain ⟨seats, hseats', hcount⟩ := h.allIn
    refine ⟨seats, by rw [eventsOf_append, allInSeats_append, hnone, List.append_nil, hseats'],
      fun i => ?_⟩
    rw [hcount, (hseats i).1]

/-- The answer to a prompt. -/
theorem answer {d : Decision n} (h : Reported start past d.state) (obs : Observation)
    (hactive : (d.state.players d.seat).status = .active) (raw : Action) :
    Reported start (past ++ .prompt d obs :: (d.answer raw).1) (d.acted raw) := by
  have hacted := actedBy_performAction (h.stack_pos d.seat hactive) raw
  have hevents : eventsOf (.prompt d obs :: (d.answer raw).1) = _ := eventsOf_answer d raw
  have hprompts : promptsOf (.prompt d obs :: (d.answer raw).1) = [(d, obs)] := by
    rw [promptsOf_cons_prompt, promptsOf_answer]
  have hbefore := performAction_allIn d.state d.seat
    (Engine.normalizeAction d.state d.seat raw)
  have hstart : (start.players d.seat).status = .active := by
    by_contra hnot
    exact hnot ((h.inactive d.seat hnot).symm.trans hactive)
  refine ⟨fun i hi => ?_, fun i hi => ?_, ?_, ?_, ?_⟩
  · by_cases hseat : i = d.seat
    · subst hseat
      exact hacted.acts.stack_pos hi
    · rw [Decision.acted, hacted.others i hseat] at hi ⊢
      exact h.stack_pos i hi
  · -- the seat that acts was active all along
    have hseat : i ≠ d.seat := fun heq => hi (heq ▸ hstart)
    rw [Decision.acted, hacted.others i hseat]
    exact h.inactive i hi
  · rw [eventsOf_append, hevents]
    refine List.forall_mem_append.mpr ⟨h.midHand, List.forall_mem_append.mpr ⟨?_, ?_⟩⟩
    · intro event hevent
      obtain ⟨seat, total, rfl⟩ := hbefore event hevent
      exact ⟨rfl, rfl, rfl⟩
    · intro event hevent
      rw [List.mem_singleton.mp hevent]
      exact ⟨rfl, rfl, rfl⟩
  · have hnone : (Engine.performAction d.state d.seat
        (Engine.normalizeAction d.state d.seat raw)).2.2.filterMap EngineEvent.actedSeat? = [] := by
      refine List.filterMap_eq_nil_iff.mpr fun event hevent => ?_
      obtain ⟨seat, total, rfl⟩ := hbefore event hevent
      rfl
    rw [eventsOf_append, hevents, List.filterMap_append, List.filterMap_append, hnone,
      promptsOf_append, hprompts, h.acted, List.map_append]
    rfl
  · obtain ⟨seats, hseats, hcount⟩ := h.allIn
    refine ⟨seats ++ if ((d.acted raw).players d.seat).status = .allIn then [d.seat] else [], ?_,
      fun i => ?_⟩
    · rw [eventsOf_append, hevents, allInSeats_append, allInSeats_append, hseats,
        allInSeats_performAction hactive, List.map_append]
      exact congrArg _ (List.append_nil _)
    · rw [List.count_append]
      by_cases hseat : i = d.seat
      · subst hseat
        have hi := hcount d.seat
        simp only [hactive, hstart, reduceCtorEq, if_false] at hi ⊢
        split <;> simp <;> omega
      · rw [Decision.acted, hacted.others i hseat, ← hcount]
        split <;> simp [Ne.symm hseat]

/-- Every operation of the engine. -/
theorem step {ok : GameState n → Prop} (h : Reported start past s)
    (hstep : Passes e ok s outputs t) : Reported start (past ++ outputs) t := by
  cases hstep with
  | acted d obs hactive raw hok => exact h.answer obs hactive raw
  | asked | collected | streetBegun => exact h.still (fun _ => ⟨rfl, rfl⟩) rfl (by simp)
  | boardDealt _ cards hnow hnext told htold =>
    refine h.still (fun _ => ⟨rfl, rfl⟩) ?_ ?_
    · rcases htold with rfl | rfl <;> rfl
    · intro event hevent
      obtain rfl : event = .boardDealt _ cards := by
        rcases htold with rfl | rfl <;> exact List.mem_singleton.mp hevent
      exact ⟨⟨rfl, rfl, rfl⟩, rfl, rfl⟩

end Reported

theorem reported_of_passage {ok : GameState n → Prop} {s t : GameState n}
    {outputs : List (Output n)} (h : Passage e ok s outputs t)
    (hpos : ∀ i, (s.players i).status = .active → 0 < (s.players i).stack) :
    Reported s outputs t :=
  h.invariant (Reported s) (fun _ _ _ _ hs hstep => hs.step hstep) [] (.refl hpos)

/-! ## Whole hands -/

section Hand

variable {handId deckSeed : ℕ} {order : Fin 52 → Card} {startingStacks : List ℕ} {dealer : ℕ}
  {seatKinds : Option (List SeatKind)} {answers : List Action}
  {outputs : List (Output startingStacks.length)} {result : HandResult}
  {players : Fin startingStacks.length → PlayerState}
  {chipDeltas : Fin startingStacks.length → ℤ} {rest : List Action}

/-- A seat is all-in after the forced bets if it had no more than it had to post. -/
theorem forcedPlayer_allIn_iff (hfunded : 0 < fundedSeats startingStacks)
    {i : Fin startingStacks.length} : (forcedPlayer e startingStacks dealer i).status = .allIn ↔
      0 < startingStacks.get i ∧
        startingStacks.get i ≤ e.rules.ante + blindsOf e startingStacks dealer i := by
  have hin := @forcedPlayer_stillIn e startingStacks dealer hfunded i
  have hactive := @forcedPlayer_active_iff e startingStacks dealer i
  rw [PlayerState.stillIn] at hin
  cases hstatus : (forcedPlayer e startingStacks dealer i).status <;>
    simp [hstatus] at hin hactive ⊢ <;> omega

/-- The setup reports a seat all-in if it is all-in after the forced bets. -/
theorem forcedReports_pos (hfunded : 0 < fundedSeats startingStacks)
    (i : Fin startingStacks.length) :
    0 < forcedReports e startingStacks dealer i ↔
      (forcedPlayer e startingStacks dealer i).status = .allIn := by
  have hsb := @postsSb_funded e startingStacks dealer hfunded i
  have hbb := @postsBb_funded e startingStacks dealer hfunded i
  rw [forcedPlayer_allIn_iff hfunded, forcedReports, blindsOf]
  generalize startingStacks.get i = stack at *
  cases hsb' : postsSb e startingStacks dealer i <;>
    cases hbb' : postsBb e startingStacks dealer i <;>
    simp [hsb', hbb'] at hsb hbb ⊢ <;> split_ifs <;> omega

/-- It does so twice if the ante takes the last chip of a seat that posts a blind. -/
theorem two_le_forcedReports (hfunded : 0 < fundedSeats startingStacks)
    (i : Fin startingStacks.length) :
    2 ≤ forcedReports e startingStacks dealer i ↔
      (postsSb e startingStacks dealer i ∨ postsBb e startingStacks dealer i) ∧
        0 < e.rules.ante ∧ startingStacks.get i ≤ e.rules.ante := by
  have hpos : postsSb e startingStacks dealer i ∨ postsBb e startingStacks dealer i →
      0 < startingStacks.get i := by
    rintro (hsb | hbb)
    · exact postsSb_funded hfunded hsb
    · exact postsBb_funded hfunded hbb
  rw [forcedReports]
  by_cases hposts : postsSb e startingStacks dealer i ∨ postsBb e startingStacks dealer i
  · have := hpos hposts
    simp only [hposts, true_and]
    split_ifs <;> omega
  · simp only [hposts, false_and, if_false, iff_false]
    split_ifs <;> omega

/-- Each seat that becomes all-in is reported by the setup or by the operations after it,
and only the setup can report it twice. -/
theorem reported_allIn (hfunded : 2 ≤ fundedSeats startingStacks)
    {s t : GameState startingStacks.length} {deck deck' : Deck} {canonicalBb : ℕ}
    {events : List EngineEvent} {later : List (Output startingStacks.length)}
    (hdeck : deck.cursor ≤ 52)
    (hsetup : setupHand e deck (e.initState handId startingStacks dealer) seatKinds =
      some (s, deck', canonicalBb, events)) (hlater : Reported s later t) :
    ∃ seats : List (Fin startingStacks.length),
      allInSeats (events ++ eventsOf later) = seats.map Fin.val ∧
      (∀ i, 2 ≤ seats.count i ↔ 2 ≤ forcedReports e startingStacks dealer i) ∧
      ∀ i, 0 < seats.count i ↔ (forcedPlayer e startingStacks dealer i).status = .allIn ∨
        (t.players i).status = .allIn := by
  have hopened := opened_of_setupHand hdeck hsetup
  obtain ⟨setupSeats, hsetupSeats, hsetupCount⟩ := setupHand_allIn hfunded hsetup
  obtain ⟨laterSeats, hlaterSeats, hlaterCount⟩ := hlater.allIn
  have hpos := @forcedReports_pos e startingStacks dealer (by omega)
  -- an all-in of the setup is not repeated, for the seat does not act any more
  have honce : ∀ i, (forcedPlayer e startingStacks dealer i).status = .allIn →
      laterSeats.count i = 0 := by
    intro i hi
    have hcount := hlaterCount i
    have hstatus : (s.players i).status = .allIn ∨ (s.players i).status = .folded := by
      rw [hopened.players_eq i, hi]
      exact statusAfterFold_cases _ _
    rw [hlater.inactive i (by rcases hstatus with hs | hs <;> simp [hs])] at hcount
    omega
  have hfirst : ∀ i, (forcedPlayer e startingStacks dealer i).status ≠ .allIn →
      laterSeats.count i = if (t.players i).status = .allIn then 1 else 0 := by
    intro i hi
    rw [← hlaterCount i, if_neg, Nat.add_zero]
    rw [hopened.players_eq i]
    rcases statusAfterFold_cases (deadHand seatKinds i)
      (forcedPlayer e startingStacks dealer i).status with heq | heq
    · exact fun h => hi (heq.symm.trans h)
    · exact fun h => absurd (heq.symm.trans h) nofun
  refine ⟨setupSeats ++ laterSeats, ?_, fun i => ?_, fun i => ?_⟩
  · rw [allInSeats_append, hsetupSeats, hlaterSeats, List.map_append]
  all_goals
    rw [List.count_append, hsetupCount]
    by_cases hi : (forcedPlayer e startingStacks dealer i).status = .allIn
  · rw [honce i hi, Nat.add_zero]
  · have hnone := mt (hpos i).mp hi
    rw [hfirst i hi]
    split <;> omega
  · simp only [hi, true_or, iff_true]
    have := (hpos i).mpr hi
    omega
  · have hnone := mt (hpos i).mp hi
    rw [hfirst i hi]
    simp only [hi, false_or]
    split <;> simp_all

theorem exhaustive_of_finished (hfunded : 2 ≤ fundedSeats startingStacks)
    (h : runHand e handId deckSeed order startingStacks dealer seatKinds answers =
      (outputs, .finished result players chipDeltas rest)) :
    Exhaustive e handId deckSeed startingStacks dealer outputs result players
        (handAward e handId order startingStacks dealer seatKinds answers) ↔
      BlindsOutlastAnte e startingStacks dealer := by
  obtain ⟨s, deck, canonicalBb, events, later, hsetup, houtputs, haward⟩ := runHand_passes h
  obtain ⟨t, hpassage, hends, -⟩ := haward.passage
  have hopened := opened_of_setupHand (Nat.zero_le 52) hsetup
  have hreported := reported_of_passage hpassage fun i => (hopened.ledger.seat i).stack_pos
  obtain ⟨seats, hseats, htwice, hmem⟩ := reported_allIn hfunded (Nat.zero_le 52) hsetup hreported
  obtain ⟨now, hnow, hstreets, hcards⟩ := hpassage.boards hopened.board_eq
  have hsetupEvents := setupHand_reports hsetup
  have hevents : eventsOf outputs = .handStarted handId dealer deckSeed ::
      (events ++ eventsOf later ++ [.handEnded result.handId result]) := by
    rw [houtputs, eventsOf_append, eventsOf_append, eventsOf_cons_event, eventsOf_events,
      eventsOf_cons_event, eventsOf_nil]
    simp
  have hwrapped {β : Type} (f : EngineEvent → Option β)
      (hfirst : f (.handStarted handId dealer deckSeed) = none)
      (hlast : f (.handEnded result.handId result) = none) :
      (eventsOf outputs).filterMap f = events.filterMap f ++ (eventsOf later).filterMap f := by
    rw [hevents, List.filterMap_cons_none hfirst, List.filterMap_append, List.filterMap_append,
      List.filterMap_cons_none hlast, List.filterMap_nil, List.append_nil]
  have hallIn : allInSeats (eventsOf outputs) = seats.map Fin.val := by
    rw [← hseats, allInSeats, hwrapped _ rfl rfl, allInSeats, List.filterMap_append]
  have hboards : boardsOf outputs = boardsOf later := by
    have hnone : events.filterMap EngineEvent.board? = [] :=
      setupHand_filterMap hsetup (fun _ _ => rfl) fun _ _ => rfl
    rw [boardsOf, hwrapped _ rfl rfl, hnone, List.nil_append, boardsOf]
  -- only a seat that its ante and its blind both put all in is reported twice
  have hnodup : (allInSeats (eventsOf outputs)).Nodup ↔
      BlindsOutlastAnte e startingStacks dealer := by
    rw [hallIn, List.nodup_map_iff Fin.val_injective, List.nodup_iff_count_le_one,
      BlindsOutlastAnte]
    refine forall_congr' fun i => ?_
    have hi := (htwice i).trans (two_le_forcedReports (by omega) i)
    constructor
    · intro hle hposts
      by_contra hnot
      have := hi.mpr ⟨hposts, by omega, by omega⟩
      omega
    · intro houtlast
      by_contra hlt
      obtain ⟨hposts, hante, hstack⟩ := hi.mp (by omega)
      have := houtlast hposts
      omega
  refine ⟨fun hall => hnodup.mp hall.allIn_once, fun houtlast => ?_⟩
  have hmid : ∀ event ∈ events ++ eventsOf later, event.isStart = false ∧ event.isEnd = false := by
    refine List.forall_mem_append.mpr ⟨fun event hevent => ?_, fun event hevent => ?_⟩
    · rcases hsetupEvents event hevent with ⟨seat, total, rfl⟩ | ⟨seat, cards, rfl⟩ <;>
        exact ⟨rfl, rfl⟩
    · exact ⟨(hreported.midHand event hevent).1, (hreported.midHand event hevent).2.1⟩
  exact {
    started := ⟨_, hevents, List.forall_mem_append.mpr
      ⟨fun event hevent => (hmid event hevent).1, by simp [EngineEvent.isStart]⟩⟩
    ended := ⟨_, hevents.trans (List.cons_append ..).symm, List.forall_mem_cons.mpr
      ⟨rfl, fun event hevent => (hmid event hevent).2⟩⟩
    dealt := by
      rw [hwrapped _ rfl rfl, setupHand_dealt (by omega) hsetup,
        List.filterMap_eq_nil_iff.mpr fun event hevent => (hreported.midHand event hevent).2.2,
        List.append_nil]
    acted := by
      have hnone : events.filterMap EngineEvent.actedSeat? = [] :=
        setupHand_filterMap hsetup (fun _ _ => rfl) fun _ _ => rfl
      rw [hwrapped _ rfl rfl, hnone, List.nil_append, hreported.acted, houtputs, promptsOf_append,
        promptsOf_append, promptsOf_cons_event, promptsOf_events, promptsOf_cons_event,
        List.nil_append, promptsOf_nil, List.append_nil]
    allIn_iff := by
      intro seat
      rw [hallIn, List.mem_map]
      refine exists_congr fun i => ?_
      rw [← List.count_pos_iff, hmem i, BecomesAllIn, hends.status_eq, and_comm]
    allIn_once := hnodup.mpr houtlast
    boards := by
      rw [hboards, hstreets]
      exact List.prefix_append _ _
    board_eq := by rw [hboards, ← hcards, hends.board_eq]
    shown := by
      intro haward
      -- a showdown is held on a full board, so that no street is missing
      have hfull := hends.full haward
      rw [hnow] at hfull
      have hnone : streetsAfter now = [] := by
        cases now <;> simp [boardSize] at hfull <;> rfl
      rw [hboards, hstreets, hnone, List.append_nil] }

/-- A hand that ends, with two seats that hold chips, reports all that happens, each thing
once, exactly if no seat that posts a blind has lost its last chip to the ante. -/
theorem tellsAll_iff (hfunded : 2 ≤ fundedSeats startingStacks)
    (hfinished : (runHand e handId deckSeed order startingStacks dealer seatKinds
      answers).2.isFinished) :
    TellsAll e handId deckSeed startingStacks dealer order seatKinds answers ↔
      BlindsOutlastAnte e startingStacks dealer := by
  rcases hrun : runHand e handId deckSeed order startingStacks dealer seatKinds answers with
    ⟨outputs, outcome⟩
  rw [hrun] at hfinished
  cases outcome with
  | finished result players chipDeltas rest =>
    rw [TellsAll, hrun, ← exhaustive_of_finished hfunded hrun]
    constructor
    · exact fun hall => hall _ _ _ _ rfl
    · rintro hall _ _ _ _ heq
      obtain ⟨rfl, rfl, rfl, rfl⟩ := HandOutcome.finished.inj heq
      exact hall
  | _ => cases hfinished

end Hand

/-! ## An ante that takes the last chip of a blind -/

/-- No-limit rules with blinds of 1 and 2 and the given ante. -/
def shortBlindEngine (ante : ℕ) : Engine := ⟨⟨.noLimit, 1, 2, ante⟩, ⟨fun _ => 0⟩⟩

/-- A hand of two seats, 5 chips against 100: seat 0 posts the big blind, and seat 1 folds
its small blind. -/
def shortBlindHand (ante : ℕ) : List (Output [5, 100].length) × HandOutcome [5, 100].length :=
  runHand (shortBlindEngine ante) 1 0 (fun i => ⟨i⟩) [5, 100] 0 none [.fold]

/-- With an ante of 1 the big blind has chips left. -/
theorem tells_all_small_ante :
    TellsAll (shortBlindEngine 1) 1 0 [5, 100] 0 (fun i => ⟨i⟩) none [.fold] := by
  have houtlast : ∀ i : Fin 2, 1 < [5, 100].get i := by decide
  exact (tellsAll_iff (by decide) (by decide +kernel)).mpr fun i _ => Or.inr (houtlast i)

/-- With an ante of 5 it has not, and is reported all-in when it posts the ante and again
when it posts the blind. -/
theorem all_in_twice :
    2 ≤ fundedSeats [5, 100] ∧ (shortBlindHand 5).2.isFinished ∧
      (∀ p ∈ answered (shortBlindHand 5).1 [.fold], p.1.legal (shortBlindEngine 5) p.2) ∧
      ¬ TellsAll (shortBlindEngine 5) 1 0 [5, 100] 0 (fun i => ⟨i⟩) none [.fold] := by
  have hfinished : (shortBlindHand 5).2.isFinished := by decide +kernel
  refine ⟨by decide, hfinished, by decide +kernel, fun hall => ?_⟩
  have htwice : allInSeats (eventsOf (shortBlindHand 5).1) = [0, 0] := by decide +kernel
  rcases hout : (shortBlindHand 5).2 with ⟨result, players, chipDeltas, rest⟩ | _ | _ | _
  · have honce := (hall _ _ _ _ hout).allIn_once
    change (allInSeats (eventsOf (shortBlindHand 5).1)).Nodup at honce
    rw [htwice] at honce
    exact absurd honce (by decide)
  all_goals
    rw [hout] at hfinished
    cases hfinished

end VibePoker.Game
