import VibePoker.Game.Checks
import VibePoker.Game.Termination

/-!
# Antes and street bets

Antes are posted as street bets, but the bet to be matched is the big blind. So
an ante counts towards the call of every seat, and where it takes a seat above
the bet the round cannot settle. The same happens to a lone seat, which posts
both blinds. Without either, and as far as no amount overflows, bets and calls are
what the blinds make them.

## Main definitions

* `CallsMatchBlinds` — antes are kept apart from the street bets

## Main results

* `calls_match_blinds_iff` — when they are
* `calls_reduced_by_ante` — a table at which they are not
-/

namespace VibePoker.Game

open VibePoker.Core VibePoker.CS

variable {n : ℕ} {e : Engine}

section Hand

variable (e) (handId deckSeed : ℕ) (order : Fin 52 → Card) (startingStacks : List ℕ) (dealer : ℕ)
  (seatKinds : Option (List SeatKind))

/-- Whenever a seat is asked, no bet exceeds the current one. -/
def BetsStayBounded : Prop :=
  ∀ answers hand,
    PlaysLegally e handId deckSeed order startingStacks dealer seatKinds answers hand →
    ∀ p ∈ promptsOf hand.1, BetsBounded p.1.state

/-- When a seat is asked for the first time before the flop, it owes the current
bet less the blinds it has posted. -/
def FirstCallsOwed : Prop :=
  ∀ answers hand,
    PlaysLegally e handId deckSeed order startingStacks dealer seatKinds answers hand →
    ∀ before d obs after, promptsOf hand.1 = before ++ (d, obs) :: after →
      d.state.street = .preflop → (∀ p ∈ before, p.1.seat ≠ d.seat) →
      d.state.currentBet - (d.state.players d.seat).betThisStreet =
        d.state.currentBet - blindsOf e startingStacks dealer d.seat

/-- Legal answers do not keep the hand waiting forever. -/
def RoundsEnd : Prop :=
  ∃ bound, ∀ answers hand,
    PlaysLegally e handId deckSeed order startingStacks dealer seatKinds answers hand →
    hand.2 = .waiting → answers.length < bound

/-- Antes do not count as street bets, in hands in which no amount overflows. -/
structure CallsMatchBlinds : Prop where
  bounded : BetsStayBounded e handId deckSeed order startingStacks dealer seatKinds
  owed : FirstCallsOwed e handId deckSeed order startingStacks dealer seatKinds
  ends : RoundsEnd e handId deckSeed order startingStacks dealer seatKinds

/-- Somebody is asked to act: the hole cards can be dealt, the dead hands are
seats of the table, and a live seat has chips behind its forced bets. -/
def Prompts : Prop :=
  fundedSeats startingStacks ≤ 26 ∧ KindsFit seatKinds startingStacks.length ∧
    ∃ i, e.rules.ante + blindsOf e startingStacks dealer i < startingStacks.get i ∧
      deadHand seatKinds i = false

end Hand

section Hand

variable {handId deckSeed : ℕ} {order : Fin 52 → Card} {startingStacks : List ℕ} {dealer : ℕ}
  {seatKinds : Option (List SeatKind)} {t : GameTree startingStacks.length}

/-! ## Hands without antes -/

theorem betsStayBounded (hante : e.rules.ante = 0)
    (hblinds : e.rules.smallBlind ≤ e.rules.bigBlind) (hblind : 0 < e.rules.bigBlind)
    (hfunded : 2 ≤ fundedSeats startingStacks) :
    BetsStayBounded e handId deckSeed order startingStacks dealer seatKinds := by
  intro answers hand hplays ⟨d, obs⟩ hp
  obtain rfl := hplays.runHand_eq
  obtain ⟨before, after, hprompts⟩ := List.append_of_mem hp
  obtain ⟨t, used, rest, t', hnew, -, htrace, hd, -⟩ := prompt_of_runHand hprompts hplays.legal
  have horderly := htrace.invariant
    (OrderlyTree startingStacks.get (2 * fundedSeats startingStacks))
    (fun _ _ _ hinv hstep => hinv.step hblind hstep)
    (orderlyTree_new hante hblinds hblind hfunded hnew)
  exact (horderly d hd).bounded

/-- The seat has not acted: it is as the forced bets left it, or the flop has
come. -/
def Fresh (p : PlayerState) (seat : Fin n) (t : GameTree n) : Prop :=
  ∀ d, t.decision? = some d → d.state.streetsLeft < 3 ∨ d.state.players seat = p

theorem streetsLeft_le (s : GameState n) : s.streetsLeft ≤ 3 := by
  rw [GameState.streetsLeft]
  cases s.street <;> simp [streetsAfter, Engine.postflop]

/-- An answer of another seat leaves a seat fresh. -/
theorem Fresh.step {start : Fin n → ℕ} {dealt : ℕ} {p : PlayerState} {seat : Fin n}
    {t t' : GameTree n} {d : Decision n} {action : Action} (h : Fresh p seat t)
    (hplay : Playing start dealt t.deck d) (hd : t.decision? = some d) (hne : d.seat ≠ seat)
    (hstep : (t.applyAction e action).2 = some t') : Fresh p seat t' := by
  intro d' hd'
  have hstreets : (d.acted action).streetsLeft = d.state.streetsLeft := by
    rw [GameState.streetsLeft, Decision.acted, performAction_street, GameState.streetsLeft]
  have hfollows := hplay.follows hd hstep
  cases hfollows.nextDecision hd' with
  | next seat' hmany hopen =>
    refine (h d hd).imp (fun hflop => hstreets.trans_lt hflop) fun hsame => ?_
    exact ((hplay.actedBy action).others seat hne.symm).trans hsame
  | street s' deck' first hmany hdone hlater hfresh hleft =>
    have := streetsLeft_le (d.acted action)
    exact Or.inl (hleft.trans_le this)

theorem firstCallsOwed (hante : e.rules.ante = 0) :
    FirstCallsOwed e handId deckSeed order startingStacks dealer seatKinds := by
  intro answers hand hplays before d obs after hprompts hstreet hfirst
  obtain rfl := hplays.runHand_eq
  obtain ⟨t, used, rest, t', hnew, -, htrace, hd, -⟩ := prompt_of_runHand hprompts hplays.legal
  obtain ⟨s, deck, hopened, hstart⟩ := new_cases hnew
  have hinit : (∀ d', t.decision? = some d' →
      Playing startingStacks.get (2 * fundedSeats startingStacks) t.deck d') ∧
      Fresh (s.players d.seat) d.seat t := by
    refine ⟨playing_new hnew, fun d' hd' => Or.inr ?_⟩
    rcases hstart with ⟨first, -, rfl⟩ | ⟨-, winner, -, rfl⟩
    · rw [GameTree.atDecision_decision?, Option.some.injEq] at hd'
      subst hd'
      rfl
    · simp at hd'
  -- until the seat is asked it keeps the player that the forced bets left, as long as the street
  -- lasts
  have hfresh := htrace.invariant (fun t => (∀ d', t.decision? = some d' →
      Playing startingStacks.get (2 * fundedSeats startingStacks) t.deck d') ∧
      Fresh (s.players d.seat) d.seat t) ?_ hinit
  · have hactive := (hfresh.1 d hd).active
    have hsame : d.state.players d.seat = s.players d.seat := by
      rcases hfresh.2 d hd with hflop | hsame
      · rw [GameState.streetsLeft, hstreet] at hflop
        simp [streetsAfter, Engine.postflop] at hflop
      · exact hsame
    rw [hsame] at hactive ⊢
    rw [hopened.players_eq d.seat] at hactive ⊢
    rcases statusAfterFold_cases (deadHand seatKinds d.seat)
      (forcedPlayer e startingStacks dealer d.seat).status with hstatus | hstatus
    · rw [hstatus] at hactive
      dsimp only
      rw [forcedPlayer_bet_of_active hactive, hante, Nat.zero_add]
    · simp [hstatus] at hactive
  · rintro t action t' ⟨hplaying, hfresh⟩ ⟨d', hd', ⟨-, hmem⟩, hstep⟩
    have hne : d'.seat ≠ d.seat := by
      obtain ⟨p, hp, rfl⟩ := List.mem_map.mp hmem
      exact hfirst p hp
    exact ⟨fun d'' => playing_of_follows (hplaying d' hd') ((hplaying d' hd').follows hd' hstep),
      hfresh.step (hplaying d' hd') hd' hne hstep⟩

/-! ## Hands without prompts -/

theorem Opened.active_iff {deck deck' : Deck} {s : GameState startingStacks.length}
    (h : Opened e handId deck startingStacks dealer seatKinds s deck')
    (i : Fin startingStacks.length) : (s.players i).status = .active ↔
      deadHand seatKinds i = false ∧
        e.rules.ante + blindsOf e startingStacks dealer i < startingStacks.get i := by
  rw [h.players_eq i, ← forcedPlayer_active_iff]
  exact statusAfterFold_eq_active

/-- A hand asks somebody exactly if it can be set up and a live seat has chips
behind. -/
theorem decision_of_prompts (handId deckSeed : ℕ) (order : Fin 52 → Card)
    (h : Prompts e startingStacks dealer seatKinds) :
    ∃ s deck first,
      Opened e handId (.new order) startingStacks dealer seatKinds s deck ∧
        (s.players first).status = .active ∧
        (GameTree.new e handId deckSeed order startingStacks dealer seatKinds).2 =
          some (.atDecision s deck first fun _ => false) := by
  obtain ⟨hcards, hkinds, live, hactive, hdead⟩ := h
  have hlive : 0 < startingStacks.get live := by omega
  obtain ⟨t, hnew⟩ : ∃ t,
      (GameTree.new e handId deckSeed order startingStacks dealer seatKinds).2 = some t :=
    new_isSome hcards hkinds hlive hdead
  obtain ⟨s, deck, hopened, ⟨first, hfirst, rfl⟩ | ⟨hnone, -⟩⟩ := new_cases hnew
  · exact ⟨s, deck, first, hopened, hfirst, hnew⟩
  · exact absurd ((hopened.active_iff live).mpr ⟨hdead, hactive⟩) (hnone live)

theorem promptsOf_eq_nil (hnone : ¬ Prompts e startingStacks dealer seatKinds)
    (answers : List Action) :
    promptsOf (runHand e handId deckSeed order startingStacks dealer seatKinds answers).1 = [] ∧
      (runHand e handId deckSeed order startingStacks dealer seatKinds answers).2 ≠ .waiting := by
  rw [promptsOf_runHand, runHand_snd, GameTree.playHand, GameTree.playFrom]
  cases hnew : (GameTree.new e handId deckSeed order startingStacks dealer seatKinds).2 with
  | none => simp
  | some t =>
    obtain ⟨s, deck, hopened, ⟨first, hactive, rfl⟩ | ⟨-, winner, -, rfl⟩⟩ := new_cases hnew
    · obtain ⟨hcards, hkinds⟩ := fits_of_new (fundedSeats_pos (hopened.funded_of_active hactive))
        hnew
      obtain ⟨hdead, hforced⟩ := (hopened.active_iff first).mp hactive
      exact absurd ⟨hcards, hkinds, first, hforced, hdead⟩ hnone
    · have hphase : (GameTree.uncontested s deck winner).phase =
          .terminal (Engine.awardUncontested s winner).2 := rfl
      simp [GameTree.play_of_terminal hphase, settle]

/-! ## The first prompt -/

/-- The first seat to be asked has bet its ante and its blinds. -/
theorem first_prompt (handId deckSeed : ℕ) (order : Fin 52 → Card)
    (h : Prompts e startingStacks dealer seatKinds) :
    ∃ d obs,
      promptsOf (runHand e handId deckSeed order startingStacks dealer seatKinds []).1 =
        [(d, obs)] ∧
      d.state.street = .preflop ∧ d.state.currentBet = e.rules.bigBlind ∧
      0 < startingStacks.get d.seat ∧
      (d.state.players d.seat).betThisStreet =
        e.rules.ante + blindsOf e startingStacks dealer d.seat := by
  obtain ⟨s, deck, first, hopened, hactive, hnew⟩ :=
    decision_of_prompts handId deckSeed order h
  have hd := GameTree.atDecision_decision? s deck first fun _ => false
  have hplaying := playing_new hnew _ hd
  obtain ⟨obs, hobs⟩ := Option.ne_none_iff_exists'.mp (hplaying.observation_ne (e := e))
  refine ⟨⟨s.setActionOn (some first), fun _ => false, first⟩, obs, ?_, hopened.street_eq,
    hopened.currentBet_eq, hopened.funded_of_active hactive, ?_⟩
  · rw [promptsOf_runHand, GameTree.playHand, GameTree.playFrom, hnew]
    simp [GameTree.play_nil hd hobs]
  · change (s.players first).betThisStreet = _
    rw [hopened.players_eq first]
    exact forcedPlayer_bet_of_active
      (forcedPlayer_active_iff.mpr ((hopened.active_iff first).mp hactive).2)

/-- If somebody is asked, calls match the blinds only without antes, and with two
seats to share the blinds. -/
theorem no_ante_of_callsMatchBlinds (hsmall : 0 < e.rules.smallBlind)
    (hopens : (runHandChecked e handId deckSeed order startingStacks dealer seatKinds []).isSome)
    (hprompts : Prompts e startingStacks dealer seatKinds)
    (h : CallsMatchBlinds e handId deckSeed order startingStacks dealer seatKinds) :
    e.rules.ante = 0 ∧ 2 ≤ fundedSeats startingStacks := by
  obtain ⟨d, obs, hfirst, hstreet, hcurrent, hlive, hbet⟩ :=
    first_prompt handId deckSeed order hprompts
  have hplays := playsLegally_nil hopens
  have hbounded : (d.state.players d.seat).betThisStreet ≤ d.state.currentBet :=
    h.bounded [] _ hplays (d, obs) (by simp [hfirst]) d.seat
  have howed := h.owed [] _ hplays [] d obs [] hfirst hstreet (by simp)
  have hante : e.rules.ante = 0 := by omega
  refine ⟨hante, ?_⟩
  -- a lone seat posts both blinds, and more than the bet it is asked to match
  by_contra hlone
  have hpos := fundedSeats_pos hlive
  have hboth : postsSb e startingStacks dealer d.seat ∧ postsBb e startingStacks dealer d.seat :=
    postsBoth (by omega) hlive
  rw [blindsOf, if_pos hboth.1, if_pos hboth.2] at hbet
  omega

/-- As far as no amount overflows, antes are kept apart from the street bets exactly
if nobody is asked to act, or there are no antes and two seats share the blinds. -/
theorem calls_match_blinds_iff (e : Engine) (handId deckSeed : ℕ) (order : Fin 52 → Card)
    (startingStacks : List ℕ) (dealer : ℕ) (seatKinds : Option (List SeatKind))
    (hsmall : 0 < e.rules.smallBlind) (hblinds : e.rules.smallBlind ≤ e.rules.bigBlind)
    (hopens : (runHandChecked e handId deckSeed order startingStacks dealer seatKinds []).isSome) :
    CallsMatchBlinds e handId deckSeed order startingStacks dealer seatKinds ↔
      ¬ Prompts e startingStacks dealer seatKinds ∨
        e.rules.ante = 0 ∧ 2 ≤ fundedSeats startingStacks := by
  constructor
  · intro h
    by_cases hprompts : Prompts e startingStacks dealer seatKinds
    · exact Or.inr (no_ante_of_callsMatchBlinds hsmall hopens hprompts h)
    · exact Or.inl hprompts
  · rintro (hnone | ⟨hante, hfunded⟩)
    · refine ⟨fun answers hand hplays p hp => ?_,
        fun answers hand hplays before d obs after heq => ?_, 0,
        fun answers hand hplays hwaiting => ?_⟩ <;> obtain rfl := hplays.runHand_eq
      · rw [(promptsOf_eq_nil hnone answers).1] at hp
        simp at hp
      · rw [(promptsOf_eq_nil hnone answers).1] at heq
        simp at heq
      · exact absurd hwaiting (promptsOf_eq_nil hnone answers).2
    · obtain ⟨bound, hbound⟩ := exists_bound handId deckSeed order dealer seatKinds hante hblinds
        (by omega) hfunded
      refine ⟨betsStayBounded hante hblinds (by omega) hfunded, firstCallsOwed hante, bound,
        fun answers hand hplays hwaiting => ?_⟩
      obtain rfl := hplays.runHand_eq
      exact hbound answers hplays.legal hwaiting

end Hand

/-- Heads-up without antes, calls match the blinds. -/
theorem calls_match_blinds_heads_up :
    CallsMatchBlinds ⟨⟨.noLimit, 1, 2, 0⟩, ⟨fun _ => 0⟩⟩ 1 0 (fun i => ⟨i⟩) [100, 100] 0 none :=
  (calls_match_blinds_iff ⟨⟨.noLimit, 1, 2, 0⟩, ⟨fun _ => 0⟩⟩ 1 0 (fun i => ⟨i⟩) [100, 100] 0 none
    (by decide) (by decide) (by decide +kernel)).mpr (Or.inr ⟨rfl, by decide⟩)

/-! ## A call reduced by an ante -/

/-- A table whose ante exceeds its big blind. -/
def highAnteEngine : Engine := ⟨⟨.noLimit, 1, 2, 5⟩, ⟨fun _ => 0⟩⟩

/-- The first seat has bet its ante of 5 where 2 is to be matched. -/
theorem calls_reduced_by_ante :
    ¬ CallsMatchBlinds highAnteEngine 1 0 (fun i => ⟨i⟩) [100, 100, 100] 0 none := by
  intro h
  have hbets : ((promptsOf (runHand highAnteEngine 1 0 (fun i => ⟨i⟩) [100, 100, 100] 0 none
      []).1).any fun p =>
        decide (p.1.state.currentBet < (p.1.state.players p.1.seat).betThisStreet)) = true := by
    decide +kernel
  obtain ⟨p, hp, hless⟩ := List.any_eq_true.mp hbets
  have hplays : PlaysLegally highAnteEngine 1 0 (fun i => ⟨i⟩) [100, 100, 100] 0 none [] _ :=
    playsLegally_nil (by decide +kernel)
  have hle := h.bounded [] _ hplays p hp p.1.seat
  simp only [decide_eq_true_eq] at hless
  omega

end VibePoker.Game
