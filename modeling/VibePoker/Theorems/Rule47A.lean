import VibePoker.Game.Checks
import VibePoker.Game.Prompts

/-!
# Reopening by short all-ins

A seat that has acted may raise again once it faces a full raise, of one increment
or of several short all-ins together (Rule 47A). The engine keeps one running sum of
short increments for the whole table and does not reset it when a sum reopens the
betting, so it can count increments that a seat has already called. All this is about
hands in which no amount overflows.

## Main definitions

* `GameState.faces` — the bet a seat still has to match
* `ActedIn` — the seats that acted earlier in a street
* `RightsTracked` — what the flags say about the bets that seats face

## Main results

* `RightsTracked.acted` — every legal answer keeps the flags in step with the bets
* `reopened_iff` — when the right to raise is decided by what the seat faces
* `reopened_by_called_bets` — a seat that may raise although it faces half a raise
-/

namespace VibePoker.Game

open VibePoker.Core VibePoker.CS

variable {n : ℕ} {e : Engine}

/-- The bet a seat still has to match. -/
def GameState.faces (s : GameState n) (i : Fin n) : ℕ :=
  s.currentBet - (s.players i).betThisStreet

/-- The seat acted at one of the decisions taken in the street of `s`. -/
def ActedIn (past : List (Decision n)) (s : GameState n) (i : Fin n) : Prop :=
  ∃ d ∈ past, d.seat = i ∧ d.state.street = s.street

/-! ## What a legal answer does to the bets -/

/-- How a legal answer may change the bets, and whether it makes the others respond
again: it leaves them, adds a short all-in, or raises in full. -/
inductive BetStep (s : GameState n) (seat : Fin n) (s' : GameState n) : Bool → Prop
  | quiet (hbet : s'.currentBet = s.currentBet)
      (hmin : s'.minRaiseIncrement = s.minRaiseIncrement)
      (hsum : s'.cumulativeShortIncrement = s.cumulativeShortIncrement)
      (hfaces : (s'.players seat).status = .active → s'.faces seat = 0) : BetStep s seat s' false
  | short (increment : ℕ) (hbet : s'.currentBet = s.currentBet + increment)
      (hmin : s'.minRaiseIncrement = s.minRaiseIncrement)
      (hsum : s'.cumulativeShortIncrement = s.cumulativeShortIncrement + increment)
      (hseat : (s'.players seat).status ≠ .active) :
      BetStep s seat s' (decide (s.minRaiseIncrement ≤ s.cumulativeShortIncrement + increment))
  | full (hbet : s'.currentBet = s.currentBet + s'.minRaiseIncrement)
      (hfaces : (s'.players seat).status = .active → s'.faces seat = 0) : BetStep s seat s' true

/-- A seat that can still act after a call has matched the bet. -/
theorem faces_eq_zero_of_putAllIn {s : GameState n} {seat : Fin n}
    (hactive : ((s.players seat).putAllIn (s.faces seat)).status = .active) :
    (s.setPlayer seat ((s.players seat).putAllIn (s.faces seat))).faces seat = 0 := by
  have hbet := (putAllIn_of_active hactive).2
  rw [GameState.faces, setPlayer_self, hbet, GameState.setPlayer_currentBet, GameState.faces]
  omega

/-- The bets after an all-in. -/
theorem betStep_allIn (s : GameState n) (seat : Fin n) :
    BetStep s seat (Engine.performAction s seat .allIn).1
      (Engine.performAction s seat .allIn).2.1 := by
  simp only [Engine.performAction]
  split_ifs with hover hfull
  · refine .full ?_ (by simp)
    simp only
    omega
  · exact .short _ (by simp only; omega) rfl rfl (by simp)
  · exact .quiet rfl rfl rfl (by simp)

/-- Every legal answer changes the bets in one of these ways. -/
theorem betStep_of_legal {d : Decision n} {raw : Action} (hbounded : BetsBounded d.state)
    (hlegal : d.legal e raw) :
    BetStep d.state d.seat (d.acted raw)
      (Engine.performAction d.state d.seat
        (Engine.normalizeAction d.state d.seat raw)).2.1 := by
  have hbet := hbounded d.seat
  rw [Decision.acted]
  cases hnorm : Engine.normalizeAction d.state d.seat raw with
  | fold => exact .quiet rfl rfl rfl (by simp [Engine.performAction])
  | check =>
    -- a legal check comes from a check, and its seat owes nothing
    refine .quiet rfl rfl rfl fun _ => ?_
    cases raw with
    | check => exact of_decide_eq_true hlegal
    | raise amount =>
      simp only [Engine.normalizeAction] at hnorm
      split_ifs at hnorm with hall hshort howed
      exact howed
    | _ => simp [Engine.normalizeAction] at hnorm
  | call =>
    refine .quiet rfl rfl rfl fun hactive => faces_eq_zero_of_putAllIn ?_
    simp only [Engine.performAction, setPlayer_self] at hactive
    exact hactive
  | raise amount =>
    obtain ⟨-, hmin⟩ := normalizeAction_eq_raise hnorm
    have hput := put_bet_of_raise hnorm
    refine .full ?_ fun _ => ?_
    · simp only [Engine.performAction, hput]
      omega
    · simp [Engine.performAction, GameState.faces]
  | allIn => exact betStep_allIn d.state d.seat

/-! ## Flags and bets -/

/-- What the flags of a betting round say about the bets: a seat that has responded
faces short increments only, and a seat that has to respond again faces a full raise
or the table has counted one together. -/
structure RightsTracked (s : GameState n) (hasResponded : Fin n → Bool) (acted : Fin n → Prop) :
    Prop where
  bounded : BetsBounded s
  responded : ∀ i, (s.players i).status = .active → hasResponded i →
    s.faces i ≤ s.cumulativeShortIncrement ∧
      (s.faces i = 0 ∨ s.cumulativeShortIncrement < s.minRaiseIncrement)
  reopened : ∀ i, (s.players i).status = .active → acted i → hasResponded i = false →
    s.minRaiseIncrement ≤ s.faces i ∨ s.minRaiseIncrement ≤ s.cumulativeShortIncrement

/-- At the start of a street nobody has responded or acted. -/
theorem RightsTracked.fresh {s : GameState n} (hbounded : BetsBounded s) {acted : Fin n → Prop}
    (hacted : ∀ i, ¬ acted i) : RightsTracked s (fun _ => false) acted where
  bounded := hbounded
  responded _ _ h := by simp at h
  reopened i _ h := absurd h (hacted i)

theorem RightsTracked.setActionOn {s : GameState n} {hasResponded : Fin n → Bool}
    {acted : Fin n → Prop} (h : RightsTracked s hasResponded acted) (seat : Option (Fin n)) :
    RightsTracked (s.setActionOn seat) hasResponded acted :=
  ⟨h.bounded, h.responded, h.reopened⟩

/-- The flags follow the bets. -/
theorem RightsTracked.step {s s' : GameState n} {seat : Fin n} {flag : Bool}
    {hasResponded : Fin n → Bool} {acted acted' : Fin n → Prop}
    (h : RightsTracked s hasResponded acted) (hstep : BetStep s seat s' flag)
    (hbounded : BetsBounded s') (hothers : ∀ i, i ≠ seat → s'.players i = s.players i)
    (hacted : ∀ i, i ≠ seat → acted' i → acted i) :
    RightsTracked s' (Engine.respond hasResponded seat flag) acted' := by
  refine ⟨hbounded, fun i hactive hresponded => ?_, fun i hactive hi hresponded => ?_⟩
  · by_cases hseat : i = seat
    · -- the seat that acts has matched the bet, or is all-in
      subst hseat
      cases hstep with
      | quiet _ _ _ hfaces => simp [hfaces hactive]
      | short _ _ _ _ hallIn => exact absurd hactive hallIn
      | full _ hfaces => simp [hfaces hactive]
    · rw [hothers i hseat] at hactive
      have hbet := h.bounded i
      rw [Engine.respond, if_neg hseat] at hresponded
      cases hstep with
      | quiet hcurrent hmin hsum =>
        have := h.responded i hactive hresponded
        simp only [GameState.faces, hothers i hseat, hcurrent, hmin, hsum] at this ⊢
        exact this
      | short increment hcurrent hmin hsum =>
        -- the sum with the new increment is still below a full raise
        split at hresponded
        case isTrue => simp at hresponded
        case isFalse hless =>
          have := h.responded i hactive hresponded
          simp only [GameState.faces, hothers i hseat, hcurrent, hmin, hsum,
            decide_eq_true_eq] at this hless ⊢
          omega
      | full => simp at hresponded
  · by_cases hseat : i = seat
    · simp [Engine.respond, hseat] at hresponded
    · rw [hothers i hseat] at hactive
      have hbet := h.bounded i
      rw [Engine.respond, if_neg hseat] at hresponded
      cases hstep with
      | quiet hcurrent hmin hsum =>
        have := h.reopened i hactive (hacted i hseat hi) hresponded
        simp only [GameState.faces, hothers i hseat, hcurrent, hmin, hsum] at this ⊢
        exact this
      | short increment hcurrent hmin hsum =>
        simp only [GameState.faces, hothers i hseat, hcurrent, hmin, hsum]
        split at hresponded
        case isTrue hfull =>
          exact Or.inr (of_decide_eq_true hfull)
        case isFalse =>
          have := h.reopened i hactive (hacted i hseat hi) hresponded
          rw [GameState.faces] at this
          omega
      | full hcurrent =>
        left
        simp only [GameState.faces, hothers i hseat, hcurrent]
        omega

/-- A legal answer keeps the flags in step with the bets. -/
theorem RightsTracked.acted {d : Decision n} {raw : Action} {acted acted' : Fin n → Prop}
    (h : RightsTracked d.state d.hasResponded acted)
    (hothers : ∀ i, i ≠ d.seat → (d.acted raw).players i = d.state.players i)
    (hacted : ∀ i, i ≠ d.seat → acted' i → acted i) (hlegal : d.legal e raw) :
    RightsTracked (d.acted raw) (d.respondedAfter raw) acted' :=
  h.step (betStep_of_legal h.bounded hlegal) (h.bounded.acted raw) hothers hacted

/-- The flag of a seat that acts again gives it the right to raise if it faces a full
raise, unless the table's sum makes one of increments that it has called. -/
theorem RightsTracked.right_iff {s : GameState n} {hasResponded : Fin n → Bool}
    {acted : Fin n → Prop} (h : RightsTracked s hasResponded acted) {i : Fin n}
    (hopen : s.unsettled hasResponded i) (hacted : acted i) :
    (hasResponded i = false ↔ s.minRaiseIncrement ≤ s.faces i) ↔
      (s.minRaiseIncrement ≤ s.faces i ∨
        s.cumulativeShortIncrement < s.minRaiseIncrement) := by
  have hactive := unsettled_active hopen
  have hbet := h.bounded i
  cases hresponded : hasResponded i with
  | true =>
    obtain ⟨hle, hzero | hless⟩ := h.responded i hactive hresponded
    · -- a settled seat is not asked
      rw [GameState.faces] at hzero
      simp only [GameState.unsettled, hresponded, Bool.and_true, Bool.and_eq_true,
        Bool.not_eq_true', decide_eq_false_iff_not] at hopen
      omega
    · simp only [Bool.true_eq_false, false_iff]
      omega
  | false =>
    have := h.reopened i hactive hacted hresponded
    simp only [true_iff]
    omega

/-! ## Along a hand -/

/-- At a decision, the streets have gone by in order and the flags are in step with
the bets of the street. -/
structure Tracked (past : List (Decision n)) (d : Decision n) : Prop where
  earlier : ∀ d' ∈ past, d.state.streetsLeft ≤ d'.state.streetsLeft
  rights : RightsTracked d.state d.hasResponded (ActedIn past d.state)

theorem acted_streetsLeft (d : Decision n) (raw : Action) :
    (d.acted raw).streetsLeft = d.state.streetsLeft := by
  rw [GameState.streetsLeft, Decision.acted, performAction_street, GameState.streetsLeft]

/-- A legal answer leads from a tracked decision to a tracked decision. -/
theorem Tracked.follows {start : Fin n → ℕ} {dealt : ℕ} {past : List (Decision n)} {deck : Deck}
    {d d' : Decision n} {raw : Action} {t' : GameTree n} (h : Tracked past d)
    (hplay : Playing start dealt deck d) (hlegal : d.legal e raw)
    (hfollows : Follows e (d.acted raw) (d.respondedAfter raw) deck t')
    (hd' : t'.decision? = some d') : Tracked (past ++ [d]) d' := by
  cases hfollows.nextDecision hd' with
  | next seat hmany hopen =>
    refine ⟨fun d' hd' => ?_, ?_⟩
    · change (d.acted raw).streetsLeft ≤ _
      rw [acted_streetsLeft]
      rcases List.mem_append.mp hd' with hpast | hlast
      · exact h.earlier d' hpast
      · rw [List.mem_singleton.mp hlast]
    · refine RightsTracked.setActionOn ?_ (some seat)
      refine h.rights.acted (hplay.actedBy raw).others (fun i hi hacted => ?_) hlegal
      · obtain ⟨d', hd', rfl, hacted⟩ := hacted
        have hstreet : d'.state.street = d.state.street :=
          hacted.trans (performAction_street _ _ _)
        rcases List.mem_append.mp hd' with hpast | hlast
        · exact ⟨d', hpast, rfl, hstreet⟩
        · exact absurd (congrArg Decision.seat (List.mem_singleton.mp hlast)) hi
  | street s' deck' first hmany hdone hlater hfresh hleft =>
    rw [acted_streetsLeft] at hleft
    -- every decision so far was on an earlier street, so that nobody has acted on this one
    have hearlier : ∀ d' ∈ past ++ [d], s'.streetsLeft < d'.state.streetsLeft := by
      intro d' hd'
      rcases List.mem_append.mp hd' with hpast | hlast
      · exact hleft.trans_le (h.earlier d' hpast)
      · rwa [List.mem_singleton.mp hlast]
    refine ⟨fun d' hd' => (hearlier d' hd').le, ?_⟩
    have hbounded : BetsBounded s' := BetsBounded.of_later hlater
    refine (RightsTracked.fresh hbounded fun i hacted => ?_).setActionOn (some first)
    obtain ⟨d', hd', -, hstreet⟩ := hacted
    have hless := hearlier d' hd'
    rw [GameState.streetsLeft, GameState.streetsLeft, hstreet] at hless
    exact absurd hless (lt_irrefl _)

section Hand

variable {handId deckSeed : ℕ} {order : Fin 52 → Card} {startingStacks : List ℕ} {dealer : ℕ}
  {seatKinds : Option (List SeatKind)} {answers : List Action}
  {t : GameTree startingStacks.length} {d : Decision startingStacks.length} {obs : Observation}

/-- The contenders at a decision all started with chips. -/
theorem Playing.playersStillIn_le {dealt : ℕ} {deck : Deck}
    (h : Playing startingStacks.get dealt deck d) :
    d.state.playersStillIn ≤ fundedSeats startingStacks := by
  rw [fundedSeats_eq_card]
  refine Finset.card_le_card fun i hi => ?_
  simp only [Finset.mem_filter, Finset.mem_univ, true_and] at hi ⊢
  exact h.start_pos i hi

/-- After an answer somebody is asked only if two seats contest the pot. -/
theorem two_le_fundedSeats {dealt : ℕ} {deck : Deck} {s : GameState startingStacks.length}
    {hasResponded : Fin startingStacks.length → Bool} {t' : GameTree startingStacks.length}
    (hfollows : Follows e s hasResponded deck t') (hd : t'.decision? = some d)
    (h : Playing startingStacks.get dealt t'.deck d) : 2 ≤ fundedSeats startingStacks := by
  have hle := h.playersStillIn_le
  have hpos : 0 < d.state.playersStillIn := by
    rw [GameState.playersStillIn, Finset.card_pos]
    exact ⟨d.seat, by simp [PlayerState.stillIn, h.active]⟩
  have hne : d.state.playersStillIn ≠ 1 := by
    cases hfollows.nextDecision hd with
    | next seat hmany =>
      exact hmany
    | street s' deck' first hmany hdone hlater =>
      have hcollect : ∀ i, ((collectStreetBets s).players i).stillIn = (s.players i).stillIn :=
        fun _ => rfl
      simpa only [GameState.playersStillIn, GameState.setActionOn_players, hlater.players_eq,
        hcollect] using hmany
  omega

/-- A second decision takes two seats with chips. -/
theorem past_eq_nil_or_two_le {ok : Decision startingStacks.length → Action → Prop}
    {used : List Action} {past : List (Decision startingStacks.length)}
    {t' : GameTree startingStacks.length}
    (hnew : (GameTree.new e handId deckSeed order startingStacks dealer seatKinds).2 = some t)
    (htrace : Trace (GameTree.Recalls e ok) (t, []) used (t', past))
    (hd : t'.decision? = some d) : past = [] ∨ 2 ≤ fundedSeats startingStacks := by
  refine (htrace.invariant (fun p => ∀ d, p.1.decision? = some d →
      Playing startingStacks.get (2 * fundedSeats startingStacks) p.1.deck d ∧
        (p.2 = [] ∨ 2 ≤ fundedSeats startingStacks)) ?_
    (fun d hd => ⟨playing_new hnew d hd, Or.inl rfl⟩) d hd).2
  rintro ⟨t, past⟩ raw ⟨t', past'⟩ hinv ⟨d, hd, -, hstep, -⟩ d' hd'
  have hplay := (hinv d hd).1
  have hfollows := hplay.follows hd hstep
  have hplay' := playing_of_follows hplay hfollows hd'
  exact ⟨hplay', Or.inr (two_le_fundedSeats hfollows hd' hplay')⟩

/-- Every decision of a hand without antes is tracked. -/
theorem tracked_of_recalls (hante : e.rules.ante = 0)
    (hblinds : e.rules.smallBlind ≤ e.rules.bigBlind)
    (hfunded : 2 ≤ fundedSeats startingStacks) {used : List Action}
    {past : List (Decision startingStacks.length)} {t' : GameTree startingStacks.length}
    (hnew : (GameTree.new e handId deckSeed order startingStacks dealer seatKinds).2 = some t)
    (htrace : Trace (GameTree.Recalls e (Decision.legal e)) (t, []) used (t', past))
    (hd : t'.decision? = some d) :
    Playing startingStacks.get (2 * fundedSeats startingStacks) t'.deck d ∧ Tracked past d := by
  refine htrace.invariant (fun p => ∀ d, p.1.decision? = some d →
      Playing startingStacks.get (2 * fundedSeats startingStacks) p.1.deck d ∧ Tracked p.2 d)
    ?_ (fun d hd => ⟨playing_new hnew d hd, ?_⟩) d hd
  · rintro ⟨t, past⟩ raw ⟨t', past'⟩ hinv ⟨d, hd, hlegal, hstep, rfl⟩ d' hd'
    obtain ⟨hplay, htracked⟩ := hinv d hd
    have hfollows := hplay.follows hd hstep
    exact ⟨playing_of_follows hplay hfollows hd',
      htracked.follows hplay hlegal hfollows hd'⟩
  · obtain ⟨s, deck, hopened, ⟨first, -, rfl⟩ | ⟨-, winner, -, rfl⟩⟩ := new_cases hnew
    · rw [GameTree.atDecision_decision?, Option.some.injEq] at hd
      subst hd
      have hbounded := hopened.betsBounded hante hblinds hfunded
      refine ⟨by simp, (RightsTracked.fresh hbounded fun i hacted => ?_).setActionOn _⟩
      obtain ⟨d', hd', -⟩ := hacted
      simp at hd'
    · simp at hd

/-- In a no-limit hand without antes in which no amount overflows, a seat that has
acted in the street and has chips for more than a minimum raise is offered a raise
exactly if it faces a full raise, in every state in which it does face one or the
table's sum of short increments is below one. -/
theorem reopened_iff (hvariant : e.rules.variant = .noLimit) (hante : e.rules.ante = 0)
    (hblinds : e.rules.smallBlind ≤ e.rules.bigBlind)
    {hand : List (Output startingStacks.length) × HandOutcome startingStacks.length}
    (hplays : PlaysLegally e handId deckSeed order startingStacks dealer seatKinds answers hand)
    {before after : List (Decision startingStacks.length × Observation)}
    (hprompts : promptsOf hand.1 = before ++ (d, obs) :: after)
    (hacted : ActedIn (before.map Prod.fst) d.state d.seat)
    (hchips : d.state.currentBet + d.state.minRaiseIncrement <
      (d.state.players d.seat).stack + (d.state.players d.seat).betThisStreet) :
    (obs.legalActions.canRaise ↔ d.state.minRaiseIncrement ≤ d.state.faces d.seat) ↔
      (d.state.minRaiseIncrement ≤ d.state.faces d.seat ∨
        d.state.cumulativeShortIncrement < d.state.minRaiseIncrement) := by
  obtain rfl := hplays.runHand_eq
  obtain ⟨t, used, rest, t', hnew, -, htrace, hd, hobs⟩ :=
    recall_of_runHand hprompts hplays.legal
  have hfunded : 2 ≤ fundedSeats startingStacks := by
    refine (past_eq_nil_or_two_le hnew htrace hd).resolve_left fun hnil => ?_
    obtain ⟨d', hd', -⟩ := hacted
    simp [hnil] at hd'
  obtain ⟨hplay, htracked⟩ := tracked_of_recalls hante hblinds hfunded hnew htrace hd
  have hcan : obs.legalActions.canRaise = !d.hasResponded d.seat := by
    rw [Decision.observation_legalActions hobs]
    simp [Engine.computeLegalActions, hvariant, hchips]
  rw [hcan, Bool.not_eq_true']
  exact htracked.rights.right_iff hplay.isOpen hacted

end Hand

/-! ## A called increment that is counted again -/

/-- A no-limit hand with blinds of 1 and 2 and the button in seat 0. -/
def blindsHand (startingStacks : List ℕ) (answers : List Action) :
    List (Output startingStacks.length) :=
  (runHand ⟨⟨.noLimit, 1, 2, 0⟩, ⟨fun _ => 0⟩⟩ 1 0 (fun i => ⟨i⟩) startingStacks 0 none answers).1

/-- The prompt after `before` goes to a seat that has acted in the street and has
chips for more than a minimum raise. -/
def asksAgainWithChips (before : List (Decision n × Observation)) (p : Decision n × Observation) :
    Bool :=
  before.any (fun q => q.1.seat = p.1.seat && q.1.state.street = p.1.state.street) &&
    p.1.state.currentBet + p.1.state.minRaiseIncrement <
      (p.1.state.players p.1.seat).stack + (p.1.state.players p.1.seat).betThisStreet

/-- The prompts before, at and after a position. -/
theorem exists_asksAgainWithChips {prompts : List (Decision n × Observation)} {k : ℕ}
    {test : Decision n × Observation → Bool}
    (h : prompts[k]?.any fun p => asksAgainWithChips (prompts.take k) p && test p) :
    ∃ before p after, prompts = before ++ p :: after ∧
      ActedIn (before.map Prod.fst) p.1.state p.1.seat ∧
      p.1.state.currentBet + p.1.state.minRaiseIncrement <
        (p.1.state.players p.1.seat).stack + (p.1.state.players p.1.seat).betThisStreet ∧
      test p := by
  obtain ⟨p, hp, htest⟩ := (Option.any_eq_true _ _).mp h
  simp only [asksAgainWithChips, Bool.and_eq_true, decide_eq_true_eq, List.any_eq_true] at htest
  obtain ⟨⟨⟨q, hq, hseat, hstreet⟩, hchips⟩, htest⟩ := htest
  obtain ⟨hk, rfl⟩ := List.getElem?_eq_some_iff.mp hp
  refine ⟨prompts.take k, _, prompts.drop (k + 1), ?_, ?_, hchips, htest⟩
  · rw [List.getElem_cons_drop, List.take_append_drop]
  · exact ⟨q.1, List.mem_map_of_mem hq, hseat, hstreet⟩

/-- Seat 0 raises to 10 and seat 1 to 30: seat 0 may raise again. -/
theorem reopened_by_raise : ∃ before p after,
    promptsOf (blindsHand [100, 100] [.raise 10, .raise 30]) = before ++ p :: after ∧
      p.2.legalActions.canRaise := by
  obtain ⟨before, ⟨d, obs⟩, after, hprompts, hacted, hchips, hfaces⟩ :=
    @exists_asksAgainWithChips _ (promptsOf (blindsHand [100, 100] [.raise 10, .raise 30])) 2
      (fun p => decide (p.1.state.minRaiseIncrement ≤ p.1.state.faces p.1.seat))
      (by decide +kernel)
  have hface := of_decide_eq_true hfaces
  have hplays : PlaysLegally ⟨⟨.noLimit, 1, 2, 0⟩, ⟨fun _ => 0⟩⟩ 1 0 (fun i => ⟨i⟩) [100, 100] 0
      none [.raise 10, .raise 30] _ :=
    ⟨runHandChecked_of_isSome (by decide +kernel), by decide +kernel⟩
  refine ⟨before, (d, obs), after, hprompts, ?_⟩
  exact ((reopened_iff rfl rfl (by decide) hplays hprompts hacted hchips).mpr
    (Or.inl hface)).mpr hface

/-- A raise of 8, then all-ins of 5 and 4 more: the caller of the first all-in is
offered a raise when it faces only the second. -/
theorem reopened_by_called_bets :
    (∀ p ∈ answered (blindsHand [15, 100, 19, 100] [.raise 10, .allIn, .call, .allIn, .call])
        [.raise 10, .allIn, .call, .allIn, .call],
      p.1.legal ⟨⟨.noLimit, 1, 2, 0⟩, ⟨fun _ => 0⟩⟩ p.2) ∧
    ¬ ∀ before p after,
      promptsOf (blindsHand [15, 100, 19, 100] [.raise 10, .allIn, .call, .allIn, .call]) =
        before ++ p :: after →
      ActedIn (before.map Prod.fst) p.1.state p.1.seat →
      p.1.state.currentBet + p.1.state.minRaiseIncrement <
        (p.1.state.players p.1.seat).stack + (p.1.state.players p.1.seat).betThisStreet →
      (p.2.legalActions.canRaise ↔
        p.1.state.minRaiseIncrement ≤ p.1.state.faces p.1.seat) := by
  refine ⟨by decide +kernel, fun hall => ?_⟩
  obtain ⟨before, p, after, hprompts, hacted, hchips, htest⟩ :=
    @exists_asksAgainWithChips _
      (promptsOf (blindsHand [15, 100, 19, 100] [.raise 10, .allIn, .call, .allIn, .call])) 5
      (fun p => p.2.legalActions.canRaise &&
        !decide (p.1.state.minRaiseIncrement ≤ p.1.state.faces p.1.seat))
      (by decide +kernel)
  simp only [Bool.and_eq_true, Bool.not_eq_true', decide_eq_false_iff_not] at htest
  exact htest.2 ((hall before p after hprompts hacted hchips).mp htest.1)

end VibePoker.Game
