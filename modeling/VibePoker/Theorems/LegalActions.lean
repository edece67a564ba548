import VibePoker.Game.Passage
import VibePoker.Theorems.BetCaps
import VibePoker.Theorems.Normalize

/-!
# Exact legal actions

In no-limit betting, whatever lies between the minimum and the maximum raise is a raise that
the engine carries out to the chip, and a call that is offered matches the bet and leaves
chips behind. A seat is offered raises only where it may raise and has more than the
minimum raise: one that has exactly as much is in the range with an all-in alone.

## Main definitions

* `Decision.ExactlyLegal` — the offered actions are right, to the chip
* `Raisable` — no street bet exceeds the minimum raise

## Main results

* `exactly_legal` — the offered actions of every no-limit prompt
* `not_legal_minimum` — a raise in the range that is not offered
-/

namespace VibePoker.Game

open VibePoker.Core VibePoker.CS

variable {n : ℕ} {e : Engine}

/-! ## The statement -/

/-- The `debug_assert` of `normalize_action`: a raise that does not take the whole stack is
not below the minimum raise. -/
def NormalizeAsserts (s : GameState n) (seat : Fin n) (raw : Action) : Prop :=
  ∀ amount, raw = .raise amount →
    amount - (s.players seat).betThisStreet < (s.players seat).stack →
      s.currentBet + s.minRaiseIncrement ≤ amount

/-- The two `debug_assert`s of `apply_action`: a raise increases the current bet and leaves
chips behind. -/
def ApplyAsserts (s : GameState n) (seat : Fin n) (action : Action) : Prop :=
  ∀ amount, action = .raise amount →
    let p := (s.players seat).put (amount - (s.players seat).betThisStreet)
    s.currentBet < p.betThisStreet ∧ 0 < p.stack

namespace Decision

/-- The answer raises the bet to `amount`, and all others that can act have to respond. -/
structure RaisesTo (d : Decision n) (raw : Action) (amount : ℕ) : Prop where
  bet_eq : ((d.acted raw).players d.seat).betThisStreet = amount
  currentBet_eq : (d.acted raw).currentBet = amount
  minRaise_add : (d.acted raw).minRaiseIncrement + d.state.currentBet = amount
  unsettled : ∀ i, i ≠ d.seat → ((d.acted raw).players i).status = .active →
    (d.acted raw).unsettled (d.respondedAfter raw) i

/-- The offered actions are right: something can be done other than folding, raises in the
range are accepted where the seat may raise, and every action does what it says. -/
structure ExactlyLegal (legal : LegalActions) (d : Decision n) : Prop where
  exists_legal : ∃ raw, raw ≠ .fold ∧ legal.isLegal raw
  minRaise_le : legal.canRaise → legal.minRaise ≤ legal.maxRaise
  raise_legal : legal.canRaise → ∀ amount, legal.minRaise ≤ amount → amount ≤ legal.maxRaise →
    legal.isLegal (.raise amount)
  normalized : ∀ amount, legal.minRaise ≤ amount → amount ≤ legal.maxRaise →
    Engine.normalizeAction d.state d.seat (.raise amount) =
      if amount < legal.maxRaise then .raise amount else .allIn
  raises : ∀ amount, legal.minRaise ≤ amount → amount ≤ legal.maxRaise →
    d.RaisesTo (.raise amount) amount
  call : legal.isLegal .call → 0 < ((d.acted .call).players d.seat).stack ∧
    ((d.acted .call).players d.seat).betThisStreet = (d.acted .call).currentBet
  asserts : ∀ raw, legal.isLegal raw → NormalizeAsserts d.state d.seat raw ∧
    ApplyAsserts d.state d.seat (Engine.normalizeAction d.state d.seat raw)

end Decision

/-! ## The minimum raise -/

/-- Raises go up, and no street bet exceeds the minimum raise. -/
structure Raisable (s : GameState n) : Prop where
  minRaise_pos : 0 < s.minRaiseIncrement
  bet_le : ∀ i, (s.players i).betThisStreet ≤ s.currentBet + s.minRaiseIncrement

/-- Within a street the increment of a raise does not go down. -/
theorem minRaise_le_performAction (s : GameState n) (seat : Fin n) (raw : Action) :
    s.minRaiseIncrement ≤
      (Engine.performAction s seat (Engine.normalizeAction s seat raw)).1.minRaiseIncrement := by
  cases hnorm : Engine.normalizeAction s seat raw with
  | fold => exact le_rfl
  | check => exact le_rfl
  | call => exact le_rfl
  | raise amount =>
    obtain ⟨-, hmin⟩ := normalizeAction_eq_raise hnorm
    simp only [Engine.performAction, put_bet_of_raise hnorm]
    omega
  | allIn =>
    simp only [Engine.performAction]
    split_ifs with hover hfull
    · exact hfull
    · exact le_rfl
    · exact le_rfl

namespace Raisable

variable {s : GameState n}

theorem performAction (h : Raisable s) (seat : Fin n) (raw : Action) :
    Raisable (Engine.performAction s seat (Engine.normalizeAction s seat raw)).1 := by
  have hbet := currentBet_le_performAction s seat raw
  have hmin := minRaise_le_performAction s seat raw
  refine ⟨h.minRaise_pos.trans_le hmin, fun i => ?_⟩
  by_cases hi : i = seat
  · subst hi
    have hseat := h.bet_le i
    cases hnorm : Engine.normalizeAction s i raw with
    | fold => simpa [Engine.performAction] using hseat
    | check => exact hseat
    | call =>
      simp only [Engine.performAction, setPlayer_self, PlayerState.putAllIn_bet,
        PlayerState.put_bet, GameState.setPlayer_currentBet]
      have : (s.setPlayer i ((s.players i).putAllIn
        (s.currentBet - (s.players i).betThisStreet))).minRaiseIncrement = s.minRaiseIncrement :=
        rfl
      omega
    | raise amount => simp [Engine.performAction]
    | allIn =>
      simp only [Engine.performAction]
      -- an all-in above the bet becomes the bet; one at or below it leaves the bet alone
      split_ifs with hover
      · simp
      · simp
      · have hnot : ((s.players i).put (s.players i).stack).betThisStreet ≤ s.currentBet := by
          simpa using hover
        have : (s.setPlayer i { (s.players i).put (s.players i).stack with
          status := .allIn }).minRaiseIncrement = s.minRaiseIncrement := rfl
        simp only [setPlayer_self, GameState.setPlayer_currentBet]
        omega
  · rw [performAction_players_of_ne hi]
    have := h.bet_le i
    omega

/-- A street without bets. -/
theorem of_fresh (hblind : 0 < e.rules.bigBlind) (hfresh : FreshRound e s)
    (hbets : ∀ i, (s.players i).betThisStreet = 0) : Raisable s := by
  refine ⟨hfresh.minRaise_eq ▸ hblind, fun i => ?_⟩
  rw [hbets i]
  exact Nat.zero_le _

theorem setActionOn (h : Raisable s) (seat : Option (Fin n)) : Raisable (s.setActionOn seat) :=
  ⟨h.minRaise_pos, h.bet_le⟩

theorem follows {d d' : Decision n} {raw : Action} {deck : Deck} {t' : GameTree n}
    (hblind : 0 < e.rules.bigBlind) (h : Raisable d.state)
    (hfollows : Follows e (d.acted raw) (d.respondedAfter raw) deck t')
    (hd' : t'.decision? = some d') : Raisable d'.state := by
  cases hfollows.nextDecision hd' with
  | next seat hmany hopen =>
    exact (h.performAction d.seat raw).setActionOn _
  | street s' deck' first hmany hdone hlater hfresh =>
    refine Raisable.setActionOn (of_fresh hblind hfresh fun i => ?_) _
    rw [hlater.players_eq]
    rfl

end Raisable

/-- Without antes the forced bets come to two big blinds at most. -/
theorem Opened.raisable {handId : ℕ} {deck deck' : Deck} {startingStacks : List ℕ} {dealer : ℕ}
    {seatKinds : Option (List SeatKind)} {s : GameState startingStacks.length}
    (h : Opened e handId deck startingStacks dealer seatKinds s deck')
    (hante : e.rules.ante = 0) (hblinds : e.rules.smallBlind ≤ e.rules.bigBlind)
    (hblind : 0 < e.rules.bigBlind) : Raisable s := by
  refine ⟨h.minRaise_eq ▸ hblind, fun i => ?_⟩
  have hbet := forcedPlayer_bet_le (e := e) startingStacks dealer i
  have hposted : blindsOf e startingStacks dealer i ≤ e.rules.smallBlind + e.rules.bigBlind := by
    rw [blindsOf]
    split_ifs <;> omega
  rw [h.players_eq i, h.currentBet_eq, h.minRaise_eq]
  dsimp only
  omega

/-! ## One decision -/

namespace Decision

variable {d : Decision n} {canReopen : Bool} {amount : ℕ}

theorem minRaise_eq : (e.computeLegalActions d.state d.seat canReopen).minRaise =
    d.state.currentBet + d.state.minRaiseIncrement := rfl

theorem maxRaise_of_noLimit (hvariant : e.rules.variant = .noLimit) :
    (e.computeLegalActions d.state d.seat canReopen).maxRaise = d.reach := by
  simp only [Engine.computeLegalActions, hvariant, reach]

/-- Raises in the range are kept, up to the one that takes the whole stack. -/
theorem normalizeAction_of_le (hmin : d.state.currentBet + d.state.minRaiseIncrement ≤ amount)
    (hstack : 0 < (d.state.players d.seat).stack) (hmax : amount ≤ d.reach) :
    Engine.normalizeAction d.state d.seat (.raise amount) =
      if amount < d.reach then .raise amount else .allIn := by
  rw [reach] at hmax ⊢
  simp only [Engine.normalizeAction]
  by_cases hless : amount < (d.state.players d.seat).stack + (d.state.players d.seat).betThisStreet
  · rw [if_pos hless, if_neg (by omega), if_neg (by omega)]
  · rw [if_neg hless, if_pos (by omega)]

/-- An aggression makes all others respond. -/
theorem unsettled_of_aggression {raw : Action}
    (h : (Engine.performAction d.state d.seat
      (Engine.normalizeAction d.state d.seat raw)).2.1 = true)
    {i : Fin n} (hi : i ≠ d.seat) (hactive : ((d.acted raw).players i).status = .active) :
    (d.acted raw).unsettled (d.respondedAfter raw) i := by
  have hresponded : d.respondedAfter raw i = false := by
    rw [respondedAfter, h, Engine.respond, if_neg hi, if_pos rfl]
  rw [GameState.unsettled, hresponded, hactive]
  simp

/-- A raise that leaves chips behind is carried out to the chip. -/
theorem raisesTo_of_raise {raw : Action} (hraisable : Raisable d.state)
    (hnorm : Engine.normalizeAction d.state d.seat raw = .raise amount) :
    d.RaisesTo raw amount := by
  obtain ⟨hless, hmin⟩ := normalizeAction_eq_raise hnorm
  have hbet := put_bet_of_raise hnorm
  have hseat := hraisable.bet_le d.seat
  rw [max_eq_right (by omega)] at hbet
  refine ⟨?_, ?_, ?_, fun i hi => unsettled_of_aggression ?_ hi⟩
  · rw [acted, hnorm, Engine.performAction]
    simpa using hbet
  · rw [acted, hnorm, Engine.performAction]
    exact hbet
  · rw [acted, hnorm, Engine.performAction]
    simp only [hbet]
    omega
  · rw [hnorm]
    rfl

/-- An all-in of a minimum raise or more is a full raise. -/
theorem raisesTo_of_allIn {raw : Action} (hraisable : Raisable d.state)
    (hmin : d.state.currentBet + d.state.minRaiseIncrement ≤ d.reach)
    (hnorm : Engine.normalizeAction d.state d.seat raw = .allIn) :
    d.RaisesTo raw d.reach := by
  have hpos := hraisable.minRaise_pos
  have hput := d.put_stack_bet
  have hover : d.reach > d.state.currentBet := by omega
  have hfull : d.reach - d.state.currentBet ≥ d.state.minRaiseIncrement := by omega
  have hperform : Engine.performAction d.state d.seat .allIn =
      ({ d.state.setPlayer d.seat
          { (d.state.players d.seat).put (d.state.players d.seat).stack with status := .allIn } with
        currentBet := d.reach
        lastAggressor := some d.seat
        minRaiseIncrement := d.reach - d.state.currentBet
        cumulativeShortIncrement := 0 }, true,
        [.playerAllIn d.seat
          ((d.state.players d.seat).put (d.state.players d.seat).stack).totalCommitted]) := by
    simp only [Engine.performAction, hput]
    rw [if_pos hover, if_pos hfull]
  refine ⟨?_, ?_, ?_, fun i hi => unsettled_of_aggression ?_ hi⟩
  · rw [acted, hnorm, hperform]
    simpa using hput
  · rw [acted, hnorm, hperform]
  · rw [acted, hnorm, hperform]
    dsimp only
    omega
  · rw [hnorm, hperform]

/-- An offered call matches the bet and leaves chips behind. -/
theorem acted_call_of_legal (hlegal : d.legal e .call) :
    0 < ((d.acted .call).players d.seat).stack ∧
      ((d.acted .call).players d.seat).betThisStreet = (d.acted .call).currentBet := by
  obtain ⟨howed, hless⟩ := legal_call.mp hlegal
  simp only [acted, Engine.normalizeAction, Engine.performAction, setPlayer_self,
    PlayerState.putAllIn_stack, PlayerState.putAllIn_bet, PlayerState.put_stack,
    PlayerState.put_bet, GameState.setPlayer_currentBet]
  omega

theorem asserts_of_legal (hraisable : Raisable d.state) {raw : Action} (hlegal : d.legal e raw) :
    NormalizeAsserts d.state d.seat raw ∧
      ApplyAsserts d.state d.seat (Engine.normalizeAction d.state d.seat raw) := by
  constructor
  · rintro amount rfl -
    exact not_lt.mp fun hshort => not_legal_raise hshort hlegal
  · intro amount hnorm
    obtain ⟨hless, hmin⟩ := normalizeAction_eq_raise hnorm
    have hpos := hraisable.minRaise_pos
    dsimp only
    rw [put_bet_of_raise hnorm, PlayerState.put_stack]
    omega

/-- The offered actions of a no-limit decision are exact. -/
theorem exactlyLegal_of_raisable (hvariant : e.rules.variant = .noLimit)
    (hraisable : Raisable d.state) (hstack : 0 < (d.state.players d.seat).stack) :
    d.ExactlyLegal (e.computeLegalActions d.state d.seat (!d.hasResponded d.seat)) := by
  have hrange : ∀ amount, d.state.currentBet + d.state.minRaiseIncrement ≤ amount →
      amount ≤ d.reach → Engine.normalizeAction d.state d.seat (.raise amount) =
        if amount < d.reach then .raise amount else .allIn :=
    fun amount hmin hmax => normalizeAction_of_le hmin hstack hmax
  refine ⟨⟨.allIn, by simp, legal_allIn hstack⟩, fun hraise => ?_, fun hraise amount hmin hmax => ?_,
    ?_, ?_, acted_call_of_legal, fun raw => asserts_of_legal hraisable⟩
  · rw [maxRaise_of_noLimit hvariant, minRaise_eq, reach]
    simp only [Engine.computeLegalActions, hvariant, Bool.and_eq_true, decide_eq_true_eq] at hraise
    omega
  · simp only [LegalActions.isLegal, hraise, hmin, hmax, decide_true, Bool.and_self]
  · rw [maxRaise_of_noLimit hvariant, minRaise_eq]
    exact hrange
  · rw [maxRaise_of_noLimit hvariant, minRaise_eq]
    intro amount hmin hmax
    have hnorm := hrange amount hmin hmax
    split at hnorm
    case isTrue => exact raisesTo_of_raise hraisable hnorm
    case isFalse hnot =>
      obtain rfl : amount = d.reach := le_antisymm hmax (not_lt.mp hnot)
      exact raisesTo_of_allIn hraisable hmin hnorm

end Decision

/-! ## Every prompt -/

section Hand

variable {handId deckSeed : ℕ} {order : Fin 52 → Card} {startingStacks : List ℕ} {dealer : ℕ}
  {seatKinds : Option (List SeatKind)} {answers : List Action}
  {d : Decision startingStacks.length} {obs : Observation}

/-- Without antes every decision can be raised at. -/
theorem raisable_of_trace (hante : e.rules.ante = 0)
    (hblinds : e.rules.smallBlind ≤ e.rules.bigBlind) (hblind : 0 < e.rules.bigBlind)
    {ok : Decision startingStacks.length → Action → Prop} {used : List Action}
    {t t' : GameTree startingStacks.length}
    (hnew : (GameTree.new e handId deckSeed order startingStacks dealer seatKinds).2 = some t)
    (htrace : Trace (GameTree.Step e ok) t used t') (hd : t'.decision? = some d) :
    Raisable d.state := by
  have hinv := htrace.invariant
    (fun t => ∀ d, t.decision? = some d →
      Playing startingStacks.get (2 * fundedSeats startingStacks) t.deck d ∧ Raisable d.state)
    ?_ fun d hd => ⟨playing_new hnew d hd, ?_⟩
  · exact (hinv d hd).2
  · rintro t raw t' hinv ⟨d, hd, -, hstep⟩ d' hd'
    obtain ⟨hplay, hraisable⟩ := hinv d hd
    have hfollows := hplay.follows hd hstep
    exact ⟨playing_of_follows hplay hfollows hd', hraisable.follows hblind hfollows hd'⟩
  · obtain ⟨s, deck, hopened, ⟨first, -, rfl⟩ | ⟨-, winner, -, rfl⟩⟩ := new_cases hnew
    · rw [GameTree.atDecision_decision?, Option.some.injEq] at hd
      subst hd
      exact (hopened.raisable hante hblinds hblind).setActionOn _
    · simp at hd

/-- At every prompt of a no-limit hand without antes, the offered actions are exact. -/
theorem exactly_legal (hvariant : e.rules.variant = .noLimit) (hante : e.rules.ante = 0)
    (hsmall : 0 < e.rules.smallBlind) (hblinds : e.rules.smallBlind ≤ e.rules.bigBlind)
    (h : (d, obs) ∈ promptsOf
      (runHand e handId deckSeed order startingStacks dealer seatKinds answers).1) :
    d.ExactlyLegal obs.legalActions := by
  obtain ⟨t, used, t', hnew, htrace, hd, hobs⟩ := asked_of_prompt h
  have hraisable := raisable_of_trace hante hblinds (hsmall.trans_le hblinds) hnew htrace hd
  have hplay := playing_of_new hnew htrace hd
  rw [Decision.observation_legalActions hobs]
  exact Decision.exactlyLegal_of_raisable hvariant hraisable hplay.stack_pos

end Hand

theorem exactly_legal_two_players :
    ∃ p ∈ promptsOf (twoPlayers []), p.1.ExactlyLegal p.2.legalActions := by
  have hprompts : promptsOf (twoPlayers []) ≠ [] := by
    intro hnil
    have : (promptsOf (twoPlayers [])).length = 1 := by decide +kernel
    simp [hnil] at this
  obtain ⟨p, hp⟩ := List.exists_mem_of_ne_nil _ hprompts
  exact ⟨p, hp, exactly_legal rfl rfl (by decide) (by decide) hp⟩

/-- The seat that is asked first has 4 chips, which is the minimum raise, the other 100. -/
def minimumStack : List (Output 2) :=
  (runHand ⟨⟨.noLimit, 1, 2, 0⟩, ⟨fun _ => 0⟩⟩ 1 0 (fun i => ⟨i⟩) [100, 4] 0 none []).1

/-- The minimum raise is in the range, but not offered. -/
theorem not_legal_minimum :
    ¬ ∀ p ∈ promptsOf minimumStack, ∀ amount,
      p.2.legalActions.minRaise ≤ amount → amount ≤ p.2.legalActions.maxRaise →
        p.2.legalActions.isLegal (.raise amount) := by
  intro hall
  have hany : (promptsOf minimumStack).any fun p =>
      p.2.legalActions.minRaise ≤ 4 ∧ 4 ≤ p.2.legalActions.maxRaise ∧
        !p.2.legalActions.isLegal (.raise 4) := by
    decide +kernel
  obtain ⟨p, hp, htest⟩ := List.any_eq_true.mp hany
  obtain ⟨hmin, hmax, hillegal⟩ := of_decide_eq_true htest
  rw [hall p hp 4 hmin hmax] at hillegal
  exact absurd hillegal Bool.false_ne_true

end VibePoker.Game
