import VibePoker.Game.Betting
import VibePoker.Game.Settlement
import VibePoker.Game.Simulation

/-!
# No pot without a contender

The slices of a showdown pot are lost when no seat that is still in has chips in
it. This cannot happen while every contender is backed by chips, while there is
a bet that the contenders must match, or while no folded seat has put chips in.
One of the three holds throughout a hand unless a seat folds a forced bet that
nobody has to match.

## Main definitions

* `Covered` — one of the three holds

## Main results

* `Covered.acted`, `Covered.street_end` — what an answer and a street change keep
* `sound_of_trace`, `Sound.settlement` — hands that keep it pay out everything
-/

namespace VibePoker.Game

open VibePoker.Core VibePoker.CS VibePoker.Math

variable {n : ℕ} {e : Engine}

/-- Every seat still in has chips in the pot. -/
def Backed (s : GameState n) : Prop := ∀ i, (s.players i).stillIn → 0 < (s.players i).totalCommitted

/-- Only seats still in have put chips in, and the active ones only on this
street. -/
structure Untouched (s : GameState n) : Prop where
  folded_eq : ∀ i, (s.players i).status = .folded → (s.players i).totalCommitted = 0
  active_eq : ∀ i, (s.players i).status = .active →
    (s.players i).totalCommitted = (s.players i).betThisStreet

/-- The chips in the pot have a contender, or the street will bring one. -/
def Covered (e : Engine) (s : GameState n) : Prop :=
  Backed s ∨ 0 < s.currentBet ∨ e.rules.bigBlind = 0 ∧ e.rules.ante = 0 ∧ Untouched s

theorem Untouched.congr {s s' : GameState n} (h : Untouched s) (hplayers : s'.players = s.players) :
    Untouched s' :=
  ⟨by rw [hplayers]; exact h.folded_eq, by rw [hplayers]; exact h.active_eq⟩

theorem Covered.congr {s s' : GameState n} (h : Covered e s) (hplayers : s'.players = s.players)
    (hbet : s'.currentBet = s.currentBet) : Covered e s' := by
  rw [Covered, Backed, hplayers, hbet]
  exact h.imp id (Or.imp id fun huntouched => ⟨huntouched.1, huntouched.2.1,
    huntouched.2.2.congr hplayers⟩)

/-- A fold that leaves the pot covered: forced bets have to be matched, or the
seat has not bet more than the others have to match. -/
def CoveredFold (e : Engine) (d : Decision n) (action : Action) : Prop :=
  action = .fold → 0 < e.rules.bigBlind ∨ 0 < e.rules.ante ∨
    (d.state.players d.seat).betThisStreet ≤ d.state.currentBet

theorem Acts.committed_le {p p' : PlayerState} (h : Acts p p') :
    p.totalCommitted ≤ p'.totalCommitted := by
  cases h with
  | folds => exact le_rfl
  | pays amount hless => exact Nat.le_add_right _ _
  | allIn => exact Nat.le_add_right _ _

theorem ActedBy.committed_le {s s' : GameState n} {seat : Fin n} (h : ActedBy s seat s')
    (i : Fin n) : (s.players i).totalCommitted ≤ (s'.players i).totalCommitted := by
  by_cases hi : i = seat
  · exact hi ▸ h.acts.committed_le
  · rw [h.others i hi]

section Step

variable {start : Fin n → ℕ} {dealt : ℕ} {deck : Deck} {d : Decision n} {action : Action}

/-- An answer keeps the pot covered unless it folds an unmatched forced bet. -/
theorem Covered.acted (h : Covered e d.state) (hplay : Playing start dealt deck d)
    (hfold : CoveredFold e d action) : Covered e (d.acted action) := by
  have hacted := hplay.actedBy action
  rcases h with hbacked | hbet | ⟨hblind, hante, huntouched⟩
  · left
    intro i hin
    exact (hbacked i (hplay.acted_stillIn action hin)).trans_le (hacted.committed_le i)
  · exact Or.inr (Or.inl (hbet.trans_le (currentBet_le_acted d action)))
  have hown := huntouched.active_eq d.seat hplay.active
  -- only a fold can leave committed chips to a seat that is out
  by_cases haction : action = .fold
  · subst haction
    have hle : (d.state.players d.seat).betThisStreet ≤ d.state.currentBet := by
      have := hfold rfl
      omega
    -- what the folded seat has in is at most the bet, so either it has nothing in or there is a bet
    rcases Nat.eq_zero_or_pos (d.state.players d.seat).betThisStreet with hzero | hpos
    · have hcommitted := hown.trans hzero
      refine Or.inr (Or.inr ⟨hblind, hante, fun i hi => ?_, fun i hi => ?_⟩)
      · by_cases hseat : i = d.seat
        · simpa [acted_fold, setPlayer_players, hseat] using hcommitted
        · rw [hacted.others i hseat] at hi ⊢
          exact huntouched.folded_eq i hi
      · by_cases hseat : i = d.seat
        · simp [acted_fold, hseat] at hi
        · rw [hacted.others i hseat] at hi ⊢
          exact huntouched.active_eq i hi
    · exact Or.inr (Or.inl (hpos.trans_le hle))
  · refine Or.inr (Or.inr ⟨hblind, hante, fun i hi => ?_, fun i hi => ?_⟩)
    · by_cases hseat : i = d.seat
      · subst hseat
        exact absurd hi (stillIn_ne_folded (acted_stillIn_of_ne_fold hplay.active haction))
      · rw [hacted.others i hseat] at hi ⊢
        exact huntouched.folded_eq i hi
    · by_cases hseat : i = d.seat
      · subst hseat
        have hacts := hacted.acts
        generalize (d.acted action).players d.seat = p' at hacts hi ⊢
        cases hacts with
        | folds => simp at hi
        | pays amount hless =>
          simp only [PlayerState.put_committed, PlayerState.put_bet]
          omega
        | allIn => simp at hi
      · rw [hacted.others i hseat] at hi ⊢
        exact huntouched.active_eq i hi

end Step

/-- At the end of a betting round the contenders are backed, or no chips of
folded seats are in the pot. -/
theorem Covered.street_end {start : Fin n → ℕ} {s : GameState n} {hasResponded : Fin n → Bool}
    (h : Covered e s) (hledger : Ledger start s)
    (hpos : ∀ i, (s.players i).stillIn → 0 < start i)
    (hdone : ∀ i, s.unsettled hasResponded i = false) :
    Backed s ∨ e.rules.bigBlind = 0 ∧ e.rules.ante = 0 ∧ Untouched (collectStreetBets s) := by
  have hmatched : ∀ i, (s.players i).status = .active →
      (s.players i).betThisStreet = s.currentBet := by
    intro i hactive
    have := hdone i
    simp only [GameState.unsettled, hactive, decide_true, Bool.true_and, Bool.not_eq_false',
      Bool.and_eq_true, decide_eq_true_eq] at this
    exact this.1
  -- a street with a bet ends with the active seats at the bet and the all-in seats at their stacks
  rcases Nat.eq_zero_or_pos s.currentBet with hzero | hbet
  · rcases h with hbacked | hbet | ⟨hblind, hante, huntouched⟩
    · exact Or.inl hbacked
    · omega
    · refine Or.inr ⟨hblind, hante, huntouched.folded_eq, fun i hactive => ?_⟩
      have hown := huntouched.active_eq i hactive
      rw [hmatched i hactive, hzero] at hown
      exact hown
  · left
    intro i hin
    have hseat := hledger.seat i
    have hstart := hpos i hin
    have := hseat.stack_add
    have := hseat.bet_le
    simp only [PlayerState.stillIn, Bool.or_eq_true, decide_eq_true_eq] at hin
    rcases hin with hactive | hallIn
    · have := hmatched i hactive
      omega
    · have := hseat.stack_eq hallIn
      omega

/-- With a contender, a covered pot is one that the showdown pays out. -/
theorem paysOut_cond {s : GameState n} {winner : Fin n} (hin : (s.players winner).stillIn)
    (h : Backed s ∨ e.rules.bigBlind = 0 ∧ e.rules.ante = 0 ∧ Untouched s) :
    (∃ i, (s.players i).status ≠ .folded ∧ 0 < (s.players i).totalCommitted) ∨
      ∀ i, (s.players i).totalCommitted = 0 := by
  rcases h with hbacked | ⟨-, -, huntouched⟩
  · exact Or.inl ⟨winner, stillIn_ne_folded hin, hbacked winner hin⟩
  · by_cases hnone : ∀ i, (s.players i).totalCommitted = 0
    · exact Or.inr hnone
    · push Not at hnone
      obtain ⟨i, hi⟩ := hnone
      exact Or.inl ⟨i, fun hfolded => hi (huntouched.folded_eq i hfolded), by omega⟩

/-! ## Along a run -/

theorem Settlement.congr {start : Fin n → ℕ} {s s' : GameState n} {chipDeltas : Fin n → ℤ}
    (h : Settlement start s chipDeltas) (hplayers : s'.players = s.players) :
    Settlement start s' chipDeltas := by
  obtain ⟨hle, hstack, hnonneg, hout⟩ := h
  exact ⟨by rwa [hplayers], by rwa [hplayers], hnonneg, by rwa [hplayers]⟩

theorem uncontested_settled {start : Fin n → ℕ} {s : GameState n} {winner : Fin n}
    (h : Ledger start s) (hin : (s.players winner).stillIn) (deck : Deck) :
    Settlement start (GameTree.uncontested s deck winner).state
        (Engine.awardUncontested s winner).2 ∧
      PaysOut (GameTree.uncontested s deck winner).state (Engine.awardUncontested s winner).2 := by
  obtain ⟨hsettled, hpays⟩ := settlement_of_uncontested h hin
  exact ⟨hsettled.congr rfl, hpays⟩

/-- What holds at every tree of a hand that keeps its pot covered. -/
structure Sound (e : Engine) (start : Fin n → ℕ) (dealt : ℕ) (t : GameTree n) : Prop where
  playing : ∀ d, t.decision? = some d → Playing start dealt t.deck d
  covered : ∀ d, t.decision? = some d → Covered e d.state
  settled : ∀ chipDeltas, t.phase = .terminal chipDeltas →
    Settlement start t.state chipDeltas ∧ PaysOut t.state chipDeltas

/-- A fold that does not leave chips in the pot without a contender. -/
def ContestedFold (d : Decision n) (action : Action) : Prop :=
  action = .fold →
    2 ≤ d.state.playersStillIn ∨ ∀ i, (d.state.players i).totalCommitted = 0

/-- After such an answer somebody is still in, or the pot is empty. -/
theorem ContestedFold.acted {start : Fin n → ℕ} {dealt : ℕ} {deck : Deck} {d : Decision n}
    {action : Action} (h : ContestedFold d action) (hplay : Playing start dealt deck d) :
    (∃ i, ((d.acted action).players i).stillIn) ∨
      ∀ i, ((d.acted action).players i).totalCommitted = 0 := by
  by_cases hfold : action = .fold
  · subst hfold
    rcases h rfl with htwo | hempty
    · refine Or.inl (exists_stillIn ?_)
      rw [playersStillIn_acted hplay.active hplay.actedBy, if_pos rfl]
      omega
    · refine Or.inr fun i => ?_
      by_cases hi : i = d.seat
      · subst hi
        rw [acted_fold, setPlayer_self]
        exact hempty d.seat
      · rw [(hplay.actedBy .fold).others i hi]
        exact hempty i
  · exact Or.inl ⟨d.seat, acted_stillIn_of_ne_fold hplay.active hfold⟩

/-- Answers that neither fold the last contender nor an unmatched forced bet keep
a hand sound. -/
theorem Sound.step {start : Fin n → ℕ} {dealt : ℕ} {t t' : GameTree n} {d : Decision n}
    {action : Action} (h : Sound e start dealt t) (hd : t.decision? = some d)
    (hlast : ContestedFold d action) (hfold : CoveredFold e d action)
    (hstep : (t.applyAction e action).2 = some t') : Sound e start dealt t' := by
  have hplay := h.playing d hd
  have hledger := hplay.ledger.acted (hplay.actedBy action)
  have hcovered := (h.covered d hd).acted hplay hfold
  have hpos : ∀ i, ((d.acted action).players i).stillIn → 0 < start i :=
    fun i hin => hplay.start_pos i (hplay.acted_stillIn action hin)
  have hfollows := hplay.follows hd hstep
  have hplaying : ∀ d', t'.decision? = some d' → Playing start dealt t'.deck d' :=
    fun d' => playing_of_follows hplay hfollows
  cases hfollows with
  | uncontested winner hone hwinner =>
    refine ⟨hplaying, by simp, fun chipDeltas hphase => ?_⟩
    obtain rfl : (Engine.awardUncontested (d.acted action) winner).2 = chipDeltas := by
      simpa [GameTree.uncontested] using hphase
    exact uncontested_settled hledger (firstStillIn_stillIn hwinner) _
  | next seat hmany hopen =>
    refine ⟨hplaying, fun d' hd' => ?_, by simp [GameTree.atDecision]⟩
    rw [GameTree.atDecision_decision?, Option.some.injEq] at hd'
    subst hd'
    exact hcovered.congr rfl rfl
  | street s' deck' first hmany hdone hlater hfresh hleft hfirst =>
    refine ⟨hplaying, fun d' hd' => ?_, by simp [GameTree.atDecision]⟩
    rw [GameTree.atDecision_decision?, Option.some.injEq] at hd'
    subst hd'
    rcases hcovered.street_end hledger hpos hdone with hbacked | ⟨hblind, hante, huntouched⟩
    · left
      intro i
      simp only [GameState.setActionOn_players, hlater.players_eq]
      exact hbacked i
    · exact Or.inr (Or.inr ⟨hblind, hante, huntouched.congr hlater.players_eq⟩)
  | showdown s' s'' deck' chipDeltas hmany hdone hlater hresolve =>
    refine ⟨hplaying, by simp, fun chipDeltas' hphase => ?_⟩
    obtain rfl : chipDeltas = chipDeltas' := by simpa using hphase
    obtain ⟨hsettled, hpays⟩ := settlement_of_showdown (hledger.collect.later hlater) hresolve
    refine ⟨hsettled, hpays.mp ?_⟩
    simp only [hlater.players_eq]
    -- either somebody is left to be paid, or there is nothing to pay out
    rcases hlast.acted hplay with ⟨winner, hwinner⟩ | hempty
    · exact paysOut_cond (s := collectStreetBets (d.acted action)) hwinner
        (hcovered.street_end hledger hpos hdone)
    · exact Or.inr hempty

/-! ## From the start of a hand -/

theorem putAllIn_committed_ge (p : PlayerState) (amount : ℕ) :
    p.totalCommitted ≤ (p.putAllIn amount).totalCommitted := by
  rw [PlayerState.putAllIn_committed, PlayerState.put_committed]
  omega

theorem postAnte_committed_le (stack : ℕ) (isSb isBb : Bool) :
    (e.postAnte (freshPlayer stack)).totalCommitted ≤
      (forcedBets e stack isSb isBb).totalCommitted := by
  have hsb : (e.postAnte (freshPlayer stack)).totalCommitted ≤
      (if isSb then (e.postAnte (freshPlayer stack)).putAllIn e.rules.smallBlind
        else e.postAnte (freshPlayer stack)).totalCommitted := by
    split
    · exact putAllIn_committed_ge _ _
    · exact le_rfl
  simp only [forcedBets]
  split
  · exact hsb.trans (putAllIn_committed_ge _ _)
  · exact hsb

/-- With antes every seat that had chips has put some in. -/
theorem forcedBets_committed_pos {stack : ℕ} (hante : 0 < e.rules.ante) (hstack : 0 < stack)
    (isSb isBb : Bool) : 0 < (forcedBets e stack isSb isBb).totalCommitted := by
  refine lt_of_lt_of_le ?_ (postAnte_committed_le stack isSb isBb)
  rw [postAnte_freshPlayer, if_pos hstack, PlayerState.putAllIn_committed,
    PlayerState.put_committed]
  simp only [freshPlayer]
  omega

theorem putAllIn_zero_committed (p : PlayerState) :
    (p.putAllIn 0).totalCommitted = p.totalCommitted := by
  rw [PlayerState.putAllIn_committed, PlayerState.put_zero]

/-- Without an ante and a big blind only the small blind puts chips in. -/
theorem forcedBets_committed_eq_zero (hante : e.rules.ante = 0) (hbb : e.rules.bigBlind = 0)
    (stack : ℕ) {isSb : Bool} (hsb : e.rules.smallBlind = 0 ∨ isSb = false) (isBb : Bool) :
    (forcedBets e stack isSb isBb).totalCommitted = 0 := by
  have hfresh : (e.postAnte (freshPlayer stack)).totalCommitted = 0 := by
    rw [postAnte_freshPlayer, hante]
    split
    · rw [putAllIn_zero_committed]
      rfl
    · rfl
  rcases hsb with hsb | rfl
  · cases isSb <;> cases isBb <;> simp [forcedBets, hsb, hbb, hfresh]
  · cases isBb <;> simp [forcedBets, hbb, hfresh]

theorem putAllIn_status_ne_folded {p : PlayerState} (h : p.status ≠ .folded) (amount : ℕ) :
    (p.putAllIn amount).status ≠ .folded := by
  rw [PlayerState.putAllIn_status]
  split
  · simp
  · exact h

/-- Forced bets fold nobody. -/
theorem forcedBets_status_ne_folded (stack : ℕ) (isSb isBb : Bool) :
    (forcedBets e stack isSb isBb).status ≠ .folded := by
  have hfresh : (freshPlayer stack).status ≠ .folded := by
    simp only [freshPlayer]
    split <;> simp
  have hante : (e.postAnte (freshPlayer stack)).status ≠ .folded := by
    rw [postAnte_freshPlayer]
    split
    · exact putAllIn_status_ne_folded hfresh _
    · exact hfresh
  cases isSb <;> cases isBb <;> simp only [forcedBets, if_true, Bool.false_eq_true, if_false]
  · exact hante
  · exact putAllIn_status_ne_folded hante _
  · exact putAllIn_status_ne_folded hante _
  · exact putAllIn_status_ne_folded (putAllIn_status_ne_folded hante _) _

section Start

variable {handId deckSeed : ℕ} {order : Fin 52 → Card} {startingStacks : List ℕ} {dealer : ℕ}
  {seatKinds : Option (List SeatKind)}

/-- Tables at which the pot is covered when the betting starts: something has to
be matched, or no dead hand has posted the small blind. -/
def CoveredStart (e : Engine) (startingStacks : List ℕ) (dealer : ℕ)
    (seatKinds : Option (List SeatKind)) : Prop :=
  0 < e.rules.bigBlind ∨ 0 < e.rules.ante ∨ e.rules.smallBlind = 0 ∨
    ∀ i, postsSb e startingStacks dealer i → deadHand seatKinds i = false

theorem coveredStart_none (e : Engine) (startingStacks : List ℕ) (dealer : ℕ) :
    CoveredStart e startingStacks dealer none :=
  Or.inr (Or.inr (Or.inr fun _ _ => rfl))

theorem Opened.covered {deck deck' : Deck} {s : GameState startingStacks.length}
    (h : Opened e handId deck startingStacks dealer seatKinds s deck')
    (hfunded : 0 < fundedSeats startingStacks)
    (hstart : CoveredStart e startingStacks dealer seatKinds) : Covered e s := by
  by_cases hbb : 0 < e.rules.bigBlind
  · exact Or.inr (Or.inl (h.currentBet_eq ▸ hbb))
  by_cases hante : 0 < e.rules.ante
  · left
    intro i hin
    rw [h.players_eq i]
    exact forcedBets_committed_pos hante (h.start_pos hfunded hin) _ _
  · refine Or.inr (Or.inr ⟨by omega, by omega, fun i hfolded => ?_, fun i _ => ?_⟩)
    · rw [h.players_eq i] at hfolded ⊢
      have hnone : e.rules.smallBlind = 0 ∨ postsSb e startingStacks dealer i = false := by
        rcases hstart with hstart | hstart | hsb | hlive
        · omega
        · omega
        · exact Or.inl hsb
        · -- only a dead hand is folded when the betting starts
          refine Or.inr (by_contra fun hposts => ?_)
          rw [hlive i (by simpa using hposts)] at hfolded
          exact forcedBets_status_ne_folded _ _ _ hfolded
      exact forcedBets_committed_eq_zero (by omega) (by omega) _ hnone _
    · rw [h.players_eq i]
      exact (forcedBets_bet_eq _ _ _).symm

variable {t : GameTree startingStacks.length}

/-- A new hand is sound. -/
theorem sound_new (hfunded : 0 < fundedSeats startingStacks)
    (hstart : CoveredStart e startingStacks dealer seatKinds)
    (h : (GameTree.new e handId deckSeed order startingStacks dealer seatKinds).2 = some t) :
    Sound e startingStacks.get (2 * fundedSeats startingStacks) t := by
  have hplaying := playing_new h
  obtain ⟨s, deck, hopened, ⟨first, hactive, rfl⟩ | ⟨-, winner, hwinner, rfl⟩⟩ := new_cases h
  · refine ⟨hplaying, fun d hd => ?_, by simp [GameTree.atDecision]⟩
    rw [GameTree.atDecision_decision?, Option.some.injEq] at hd
    subst hd
    exact (hopened.covered hfunded hstart).congr rfl rfl
  · refine ⟨hplaying, by simp, fun chipDeltas hphase => ?_⟩
    obtain rfl : (Engine.awardUncontested s winner).2 = chipDeltas := by
      simpa [GameTree.uncontested] using hphase
    exact uncontested_settled hopened.ledger (firstStillIn_stillIn hwinner) _

/-- Answers that fold neither the last contender nor an unmatched forced bet lead
to sound trees only. -/
theorem sound_of_trace {ok : Decision startingStacks.length → Action → Prop}
    (hok : ∀ d action, ok d action → ContestedFold d action ∧ CoveredFold e d action)
    {used : List Action} {t' : GameTree startingStacks.length}
    (htrace : Trace (GameTree.Step e ok) t used t')
    (h : Sound e startingStacks.get (2 * fundedSeats startingStacks) t) :
    Sound e startingStacks.get (2 * fundedSeats startingStacks) t' := by
  refine htrace.invariant (Sound e _ _) ?_ h
  rintro t action t' hsound ⟨d, hd, hdok, hstep⟩
  exact hsound.step hd (hok d action hdok).1 (hok d action hdok).2 hstep

/-- A hand that finished at a sound tree paid out everything. -/
theorem Sound.settlement {ok : Decision startingStacks.length → Action → Prop}
    {rest rest' : List Action}
    {result : HandResult} {players : Fin startingStacks.length → PlayerState}
    {chipDeltas : Fin startingStacks.length → ℤ} {start : Fin startingStacks.length → ℕ} {dealt : ℕ}
    (h : Sound e start dealt t)
    (hends : GameTree.Ends e ok t rest (.finished result players chipDeltas rest')) :
    Settlement start t.state chipDeltas ∧ PaysOut t.state chipDeltas ∧
      result = buildResult t.state.handId t.state chipDeltas ∧ players = t.state.players := by
  obtain ⟨hphase, hplayers, -, hresult⟩ := hends.terminal
  obtain ⟨hsettled, hpays⟩ := h.settled chipDeltas hphase
  exact ⟨hsettled, hpays, hresult, hplayers⟩

/-! ## At least two contenders -/

theorem Opened.playersStillIn_eq {deck deck' : Deck} {s : GameState startingStacks.length}
    (h : Opened e handId deck startingStacks dealer none s deck')
    (hfunded : 0 < fundedSeats startingStacks) : s.playersStillIn = fundedSeats startingStacks := by
  rw [fundedSeats_eq_card, GameState.playersStillIn]
  congr 1
  ext i
  have hforced : (forcedPlayer e startingStacks dealer i).stillIn =
      decide (0 < startingStacks.get i) := forcedPlayer_stillIn hfunded i
  have hstatus : (s.players i).status = (forcedPlayer e startingStacks dealer i).status := by
    rw [h.players_eq i]
    rfl
  have hin : (s.players i).stillIn = (forcedPlayer e startingStacks dealer i).stillIn := by
    simp [PlayerState.stillIn, hstatus]
  simp [hin, hforced]

/-- A hand without dead hands asks nobody once a single contender is left. -/
theorem two_contenders {ok : Decision startingStacks.length → Action → Prop}
    (hfunded : 2 ≤ fundedSeats startingStacks) {used : List Action}
    {t' : GameTree startingStacks.length}
    (h : (GameTree.new e handId deckSeed order startingStacks dealer none).2 = some t)
    (htrace : Trace (GameTree.Step e ok) t used t') :
    Trace (GameTree.Step e fun d action => ok d action ∧ 2 ≤ d.state.playersStillIn) t used t' := by
  have hstart : ∀ d, t.decision? = some d →
      Playing startingStacks.get (2 * fundedSeats startingStacks) t.deck d ∧
        2 ≤ d.state.playersStillIn := by
    intro d hd
    refine ⟨playing_new h d hd, ?_⟩
    obtain ⟨s, deck, hopened, ⟨first, hactive, rfl⟩ | ⟨-, winner, hwinner, rfl⟩⟩ := new_cases h
    · rw [GameTree.atDecision_decision?, Option.some.injEq] at hd
      subst hd
      exact hfunded.trans (hopened.playersStillIn_eq (by omega)).ge
    · simp at hd
  have hkeep : ∀ t action t', (∀ d, t.decision? = some d →
      Playing startingStacks.get (2 * fundedSeats startingStacks) t.deck d ∧
        2 ≤ d.state.playersStillIn) → GameTree.Step e ok t action t' →
      ∀ d, t'.decision? = some d →
        Playing startingStacks.get (2 * fundedSeats startingStacks) t'.deck d ∧
          2 ≤ d.state.playersStillIn := by
    rintro t action t' hinv ⟨d, hd, -, hstep⟩ d' hd'
    obtain ⟨hplay, htwo⟩ := hinv d hd
    have hfollows := hplay.follows hd hstep
    refine ⟨playing_of_follows hplay hfollows hd', ?_⟩
    have hcount := playersStillIn_acted hplay.active hplay.actedBy action
    cases hfollows.nextDecision hd' with
    | next seat hmany hopen =>
      change 2 ≤ (d.acted action).playersStillIn
      -- an answer drops one contender at most, and the hand went on with more than one
      split at hcount <;> omega
    | street s' deck' first hmany hdone hlater =>
      have hsame : (s'.setActionOn (some first)).playersStillIn =
          (d.acted action).playersStillIn := by
        rw [GameState.playersStillIn]
        simp only [GameState.setActionOn_players, hlater.players_eq]
        rfl
      rw [hsame]
      split at hcount <;> omega
  refine (htrace.restrict _ hkeep hstart).mono ?_
  rintro t action t' ⟨hinv, d, hd, hdok, hstep⟩
  exact ⟨d, hd, ⟨hdok, (hinv d hd).2⟩, hstep⟩

end Start

end VibePoker.Game
