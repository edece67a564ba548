import VibePoker.Game.Betting
import VibePoker.Game.Settlement
import VibePoker.Game.Simulation

/-!
# Hands end

Every legal answer uses something up: chips behind, active seats, streets, or
seats that have not responded to the current bet. A check uses up a response and
nothing else, so the responses count least. The rank bounds the number of prompts
of a hand; and with at most 23 seats dealt in, the deck never runs out.

## Main definitions

* `Decision.rank` — what is left to use up at a decision
* `Orderly` — the decisions at which the rank is known to go down

## Main results

* `rank_lt` — a legal answer lowers the rank
* `not_stuck` — a hand of at most 23 seats does not panic
* `length_add_rank_le` — the number of prompts is bounded
-/

namespace VibePoker.Game

open VibePoker.Core VibePoker.CS VibePoker.Math

variable {n : ℕ} {e : Engine}

/-! ## What an answer uses up -/

/-- Chips behind, and one for being able to act. -/
def PlayerState.weight (p : PlayerState) : ℕ := p.stack + if p.status = .active then 1 else 0

/-- Chips behind and seats able to act, over the whole table. -/
def GameState.weight (s : GameState n) : ℕ := ∑ i, (s.players i).weight

/-- Seats that have not responded to the current bet. -/
def unresponded (hasResponded : Fin n → Bool) : ℕ :=
  (Finset.univ.filter fun i => hasResponded i = false).card

/-- What is left to use up at a decision. -/
def Decision.rank (d : Decision n) : ℕ :=
  (d.state.weight + d.state.streetsLeft) * (n + 1) + unresponded d.hasResponded

/-- A bound on the number of answers before a hand is over. -/
def GameTree.rank (t : GameTree n) : ℕ :=
  match t.decision? with
  | some d => d.rank + 1
  | none => 0

theorem GameTree.rank_pos {t : GameTree n} {d : Decision n} (h : t.decision? = some d) :
    0 < t.rank := by
  simp [GameTree.rank, h]

theorem unresponded_le (hasResponded : Fin n → Bool) : unresponded hasResponded ≤ n := by
  have := Finset.card_filter_le (Finset.univ : Finset (Fin n)) fun i => hasResponded i = false
  simpa [unresponded] using this

/-- A seat able to act loses weight with its chips. -/
theorem PlayerState.weight_lt {p p' : PlayerState} (hactive : p.status = .active)
    (hless : p'.stack < p.stack) : p'.weight < p.weight := by
  simp only [PlayerState.weight, hactive, if_true]
  split <;> omega

theorem PlayerState.weight_fold {p : PlayerState} (hactive : p.status = .active) :
    ({ p with status := .folded } : PlayerState).weight < p.weight := by
  simp [PlayerState.weight, hactive]

theorem Acts.weight_le {p p' : PlayerState} (h : Acts p p') : p'.weight ≤ p.weight := by
  cases h with
  | folds =>
    simp only [PlayerState.weight, reduceCtorEq, if_false]
    omega
  | pays amount hless =>
    simp only [PlayerState.weight, PlayerState.put_stack, PlayerState.put_status]
    exact Nat.add_le_add_right (Nat.sub_le _ _) _
  | allIn =>
    simp only [PlayerState.weight, PlayerState.put_stack, reduceCtorEq, if_false]
    omega

theorem ActedBy.weight_le {s s' : GameState n} {seat : Fin n} (h : ActedBy s seat s') :
    s'.weight ≤ s.weight := by
  refine Finset.sum_le_sum fun i _ => ?_
  by_cases hi : i = seat
  · exact hi ▸ h.acts.weight_le
  · rw [h.others i hi]

theorem ActedBy.weight_lt {s s' : GameState n} {seat : Fin n} (h : ActedBy s seat s')
    (hless : (s'.players seat).weight < (s.players seat).weight) : s'.weight < s.weight := by
  refine Finset.sum_lt_sum (fun i _ => ?_) ⟨seat, Finset.mem_univ seat, hless⟩
  by_cases hi : i = seat
  · exact hi ▸ h.acts.weight_le
  · rw [h.others i hi]

theorem allIn_stack_lt {s : GameState n} {seat : Fin n} (hstack : 0 < (s.players seat).stack) :
    ((Engine.performAction s seat .allIn).1.players seat).stack < (s.players seat).stack := by
  simp only [Engine.performAction]
  split_ifs <;> simpa [PlayerState.put_stack] using hstack

/-! ## Orderly decisions -/

/-- A decision in order at which no bet exceeds the current one and a raise costs
something. -/
structure Orderly (start : Fin n → ℕ) (dealt : ℕ) (deck : Deck) (d : Decision n) : Prop
    extends Playing start dealt deck d where
  bounded : BetsBounded d.state
  raise_pos : 0 < d.state.minRaiseIncrement

theorem raise_pos_acted {d : Decision n} (h : 0 < d.state.minRaiseIncrement) (action : Action) :
    0 < (d.acted action).minRaiseIncrement := by
  rw [Decision.acted]
  cases hnorm : Engine.normalizeAction d.state d.seat action with
  | fold => exact h
  | check => exact h
  | call => exact h
  | raise amount =>
    obtain ⟨-, hmin⟩ := normalizeAction_eq_raise hnorm
    simp only [Engine.performAction, put_bet_of_raise hnorm]
    omega
  | allIn =>
    simp only [Engine.performAction]
    split_ifs <;> simp only [GameState.setPlayer_minRaiseIncrement] <;> omega

section Step

variable {start : Fin n → ℕ} {dealt : ℕ} {deck : Deck} {d d' : Decision n} {action : Action}
  {t' : GameTree n}

theorem Orderly.follows (h : Orderly start dealt deck d) (hblind : 0 < e.rules.bigBlind)
    (hfollows : Follows e (d.acted action) (d.respondedAfter action) deck t')
    (hd' : t'.decision? = some d') : Orderly start dealt t'.deck d' := by
  refine ⟨playing_of_follows h.toPlaying hfollows hd', h.bounded.follows hfollows hd', ?_⟩
  cases hfollows.nextDecision hd' with
  | next seat hmany hopen =>
    exact raise_pos_acted h.raise_pos action
  | street s' deck' first hmany hdone hlater hfresh =>
    exact hfresh.minRaise_eq ▸ hblind

/-- A legal answer is a check, which uses up a response and nothing else, or it
costs the seat chips or its turn. -/
theorem legal_cases (h : Orderly start dealt deck d) (hlegal : d.legal e action) :
    (d.acted action = d.state ∧ d.hasResponded d.seat = false ∧
        d.respondedAfter action = Function.update d.hasResponded d.seat true) ∨
      (d.acted action).weight < d.state.weight := by
  have hactive := h.active
  have hstack := (h.ledger.seat d.seat).stack_pos hactive
  have hbet := h.bounded d.seat
  have hraise := h.raise_pos
  have hcost := (h.actedBy action).weight_lt
  rw [Decision.legal] at hlegal
  cases action with
  | fold =>
    refine Or.inr (hcost ?_)
    rw [acted_fold, setPlayer_self]
    exact PlayerState.weight_fold hactive
  | check =>
    -- a check pays nothing, but a seat that had not responded now has
    have howed : d.state.currentBet - (d.state.players d.seat).betThisStreet = 0 := by
      simpa [LegalActions.isLegal, Engine.computeLegalActions] using hlegal
    have hsettled : (d.state.players d.seat).betThisStreet = d.state.currentBet := by omega
    have hopen := h.isOpen
    refine Or.inl ⟨rfl, by simpa [GameState.unsettled, hactive, hsettled] using hopen, ?_⟩
    funext i
    simp [Decision.respondedAfter, Engine.respond, Engine.performAction, Engine.normalizeAction,
      Function.update_apply]
  | call =>
    refine Or.inr (hcost (PlayerState.weight_lt hactive ?_))
    simp only [LegalActions.isLegal, Engine.computeLegalActions, decide_eq_true_eq] at hlegal
    simp only [Decision.acted, Engine.normalizeAction, Engine.performAction, setPlayer_self,
      PlayerState.putAllIn_stack, PlayerState.put_stack]
    omega
  | raise amount =>
    refine Or.inr (hcost (PlayerState.weight_lt hactive ?_))
    simp only [LegalActions.isLegal, Engine.computeLegalActions, Bool.and_eq_true] at hlegal
    have hmin := of_decide_eq_true hlegal.1.2
    by_cases hall : amount - (d.state.players d.seat).betThisStreet ≥
        (d.state.players d.seat).stack
    · simp only [Decision.acted, Engine.normalizeAction, hall, if_true]
      exact allIn_stack_lt hstack
    · have hnot : ¬ amount < d.state.currentBet + d.state.minRaiseIncrement := by omega
      simp only [Decision.acted, Engine.normalizeAction, hall, hnot, if_false,
        Engine.performAction, setPlayer_self, PlayerState.put_stack]
      omega
  | allIn =>
    refine Or.inr (hcost (PlayerState.weight_lt hactive ?_))
    exact allIn_stack_lt hstack

/-! ## The rank goes down -/

theorem rank_lt_of_check {weight streets responded responded' : ℕ}
    (hless : responded' < responded) :
    (weight + streets) * (n + 1) + responded' < (weight + streets) * (n + 1) + responded := by
  omega

/-- Whatever else is used up, it outweighs all the responses. -/
theorem rank_lt_of_cost {total total' responded responded' : ℕ} (hle : responded' ≤ n)
    (hless : total' < total) :
    total' * (n + 1) + responded' < total * (n + 1) + responded := by
  calc total' * (n + 1) + responded' < total' * (n + 1) + (n + 1) := by omega
    _ = (total' + 1) * (n + 1) := (Nat.succ_mul _ _).symm
    _ ≤ total * (n + 1) := Nat.mul_le_mul_right _ hless
    _ ≤ total * (n + 1) + responded := Nat.le_add_right _ _

theorem unresponded_update {hasResponded : Fin n → Bool} {seat : Fin n}
    (h : hasResponded seat = false) :
    unresponded (Function.update hasResponded seat true) < unresponded hasResponded := by
  refine Finset.card_lt_card ⟨fun i hi => ?_, fun hle => ?_⟩
  · simp only [Finset.mem_filter, Finset.mem_univ, true_and] at hi ⊢
    by_cases hseat : i = seat
    · simp [hseat] at hi
    · simpa [hseat] using hi
  · have := hle (x := seat) (by simpa using h)
    simp at this

theorem weight_of_players {s s' : GameState n} (h : s'.players = s.players) :
    s'.weight = s.weight := by
  rw [GameState.weight, h, GameState.weight]

/-- A legal answer lowers the rank. -/
theorem rank_lt (h : Orderly start dealt deck d) (hlegal : d.legal e action)
    (hfollows : Follows e (d.acted action) (d.respondedAfter action) deck t')
    (hd' : t'.decision? = some d') : d'.rank < d.rank := by
  have hacted := h.actedBy action
  have hstreets : (d.acted action).streetsLeft = d.state.streetsLeft := by
    rw [GameState.streetsLeft, Decision.acted, performAction_street, GameState.streetsLeft]
  cases hfollows.nextDecision hd' with
  | next seat hmany hopen =>
    change ((d.acted action).weight + (d.acted action).streetsLeft) * (n + 1) +
      unresponded (d.respondedAfter action) < d.rank
    rw [hstreets, Decision.rank]
    rcases legal_cases h hlegal with ⟨hsame, hopen', hresponded⟩ | hcost
    · rw [hsame, hresponded]
      exact rank_lt_of_check (unresponded_update hopen')
    · exact rank_lt_of_cost (unresponded_le _) (by omega)
  | street s' deck' first hmany hdone hlater hfresh hleft =>
    have hweight : s'.weight = (d.acted action).weight := by
      rw [weight_of_players hlater.players_eq]
      rfl
    have hle := hacted.weight_le
    change (s'.weight + s'.streetsLeft) * (n + 1) + unresponded (fun _ => false) < d.rank
    exact rank_lt_of_cost (unresponded_le _) (by omega)

end Step

/-! ## Enough cards -/

/-- Every hand that may win a pot of a showdown has cards. -/
theorem holeCards_of_eligible {start : Fin n → ℕ} {dealt : ℕ} {deck : Deck} {d : Decision n}
    {action : Action} (h : Playing start dealt deck d) {s' : GameState n}
    (hplayers : s'.players = (collectStreetBets (d.acted action)).players) :
    ∀ pot ∈ buildShowdownPots s'.players, ∀ i ∈ pot.2, (s'.players i).holeCards ≠ none := by
  intro pot hpot i hi
  obtain ⟨-, -, level, hlevel, heq⟩ := isPot_of_mem _ hpot
  rw [heq, mem_eligibleSeats] at hi
  rw [hplayers] at hi ⊢
  have hledger := (h.ledger.acted (h.actedBy action)).collect.seat i
  refine h.acted_holeCards_ne action i ?_
  obtain ⟨hcommitted, hfolded⟩ := hi
  cases hstatus : ((d.acted action).players i).status with
  | active => simp [PlayerState.stillIn, hstatus]
  | allIn => simp [PlayerState.stillIn, hstatus]
  | folded => exact absurd hstatus hfolded
  | out =>
    have := hledger.committed_eq_zero hstatus
    omega

/-- With five cards left after the deal no answer panics. -/
theorem applyAction_isSome {start : Fin n → ℕ} {dealt : ℕ} {t : GameTree n} {d : Decision n}
    (h : Playing start dealt t.deck d) (hcards : dealt + 5 ≤ 52) (hd : t.decision? = some d)
    (action : Action) : ∃ t', (t.applyAction e action).2 = some t' := by
  rw [GameTree.applyAction_snd hd, GameTree.advance]
  split
  case isTrue hone =>
    obtain ⟨i, hi⟩ := exists_stillIn (by omega : 0 < (d.acted action).playersStillIn)
    cases hwinner : (d.acted action).firstStillIn with
    | none =>
      have := (find?_finRange_eq_none_iff _).mp hwinner i
      simp [hi] at this
    | some winner => exact ⟨_, rfl⟩
  case isFalse hmany =>
    split
    case h_1 next hnext => exact ⟨_, rfl⟩
    case h_2 =>
      have hboard : (d.acted action).board = d.state.board := performAction_board _ _ _
      have hcursor := h.cursor_eq
      refine advanceStreets_isSome ?_ (fun _ => rfl) (boardFits_acted h.board_fits action) ?_
        fun s' deck' hlater hfive => ?_
      · change (d.acted action).streetsLeft < 4
        rw [GameState.streetsLeft]
        cases (d.acted action).street <;> simp [streetsAfter, Engine.postflop]
      · change t.deck.cursor + 5 ≤ 52 + (d.acted action).board.length
        rw [hboard]
        omega
      · have hcards : ∀ pot ∈ buildShowdownPots s'.players, ∀ i ∈ pot.2,
            (s'.players i).holeCards ≠ none := holeCards_of_eligible h hlater.players_eq
        obtain ⟨awards, hawards⟩ := awardPots_isSome (e := e) hcards
        simp [Engine.resolveShowdown, hfive, hawards]

/-- With five cards left after the deal a run does not panic. -/
theorem not_stuck {start : Fin n → ℕ} {dealt : ℕ} {t : GameTree n}
    {ok : Decision n → Action → Prop}
    (h : ∀ d, t.decision? = some d → Playing start dealt t.deck d) (hcards : dealt + 5 ≤ 52)
    (rest : List Action) : ¬ t.Stuck e ok rest := by
  rintro ⟨d, hd, hblind | ⟨action, _, -, -, hnone⟩⟩
  · exact (h d hd).observation_ne hblind
  · obtain ⟨t', hsome⟩ := applyAction_isSome (e := e) (h d hd) hcards hd action
    simp [hsome] at hnone

/-! ## Runs of legal answers -/

/-- What holds at every tree of a hand played with legal answers. -/
def OrderlyTree (start : Fin n → ℕ) (dealt : ℕ) (t : GameTree n) : Prop :=
  ∀ d, t.decision? = some d → Orderly start dealt t.deck d

theorem OrderlyTree.step {start : Fin n → ℕ} {dealt : ℕ} {ok : Decision n → Action → Prop}
    {t t' : GameTree n} {action : Action} (h : OrderlyTree start dealt t)
    (hblind : 0 < e.rules.bigBlind) (hstep : GameTree.Step e ok t action t') :
    OrderlyTree start dealt t' := by
  obtain ⟨d, hd, -, hstep⟩ := hstep
  intro d' hd'
  exact (h d hd).follows hblind ((h d hd).toPlaying.follows hd hstep) hd'

/-- The rank bounds the number of legal answers that can still be given. -/
theorem length_add_rank_le {start : Fin n → ℕ} {dealt : ℕ} {t t' : GameTree n}
    {used : List Action} (h : OrderlyTree start dealt t) (hblind : 0 < e.rules.bigBlind)
    (htrace : Trace (GameTree.Step e (Decision.legal e)) t used t') :
    used.length + t'.rank ≤ t.rank := by
  have hrestricted := htrace.restrict (OrderlyTree start dealt)
    (fun _ _ _ hinv hstep => hinv.step hblind hstep) h
  refine hrestricted.length_le GameTree.rank ?_
  rintro t action t' ⟨hinv, d, hd, hlegal, hstep⟩
  rw [GameTree.rank, GameTree.rank, hd]
  cases hd' : t'.decision? with
  | none => exact Nat.succ_pos _
  | some d' =>
    exact Nat.succ_lt_succ
      (rank_lt (hinv d hd) hlegal ((hinv d hd).toPlaying.follows hd hstep) hd')

/-! ## Runs of a hand -/

section Hand

variable {handId deckSeed : ℕ} {order : Fin 52 → Card} {startingStacks : List ℕ} {dealer : ℕ}
  {seatKinds : Option (List SeatKind)} {t : GameTree startingStacks.length}

/-- Without antes the first decision of a hand is orderly. -/
theorem orderlyTree_new (hante : e.rules.ante = 0)
    (hblinds : e.rules.smallBlind ≤ e.rules.bigBlind) (hblind : 0 < e.rules.bigBlind)
    (hfunded : 2 ≤ fundedSeats startingStacks)
    (h : (GameTree.new e handId deckSeed order startingStacks dealer seatKinds).2 = some t) :
    OrderlyTree startingStacks.get (2 * fundedSeats startingStacks) t := by
  intro d hd
  have hplaying := playing_new h d hd
  obtain ⟨s, deck, hopened, ⟨first, -, rfl⟩ | ⟨-, winner, -, rfl⟩⟩ := new_cases h
  · rw [GameTree.atDecision_decision?, Option.some.injEq] at hd
    subst hd
    have hbounded : BetsBounded s := hopened.betsBounded hante hblinds hfunded
    exact ⟨hplaying, hbounded, hblind.trans_eq hopened.minRaise_eq.symm⟩
  · simp at hd

/-- A run that waits for an answer stopped at a decision, with no answers left. -/
theorem waiting_of_ends {ok : Decision n → Action → Prop} {t : GameTree n} {rest : List Action}
    {outcome : HandOutcome n} (h : GameTree.Ends e ok t rest outcome)
    (hwaiting : outcome = .waiting) : ∃ d, t.decision? = some d ∧ rest = [] := by
  cases h with
  | finished => simp [settle] at hwaiting
  | waiting d hd hrest => exact ⟨d, hd, hrest⟩
  | panicked => simp at hwaiting

/-- The first tree of a hand bounds the number of legal answers after which the
hand still waits for another. -/
theorem exists_bound (handId deckSeed : ℕ) (order : Fin 52 → Card) (dealer : ℕ)
    (seatKinds : Option (List SeatKind)) (hante : e.rules.ante = 0)
    (hblinds : e.rules.smallBlind ≤ e.rules.bigBlind) (hblind : 0 < e.rules.bigBlind)
    (hfunded : 2 ≤ fundedSeats startingStacks) :
    ∃ bound, ∀ answers,
      (∀ p ∈ answered
        (runHand e handId deckSeed order startingStacks dealer seatKinds answers).1 answers,
        p.1.legal e p.2) →
      (runHand e handId deckSeed order startingStacks dealer seatKinds answers).2 = .waiting →
        answers.length < bound := by
  cases hnew : (GameTree.new e handId deckSeed order startingStacks dealer seatKinds).2 with
  | none =>
    refine ⟨0, fun answers _ hwaiting => ?_⟩
    rw [runHand_snd, GameTree.playHand, GameTree.playFrom, hnew] at hwaiting
    simp at hwaiting
  | some t =>
    refine ⟨t.rank, fun answers hlegal hwaiting => ?_⟩
    rcases runHand_trace (Decision.legal e) hlegal with
      ⟨-, hpanicked⟩ | ⟨t₀, used, rest, t', hnew', rfl, htrace, hends⟩
    · simp [hpanicked] at hwaiting
    · obtain rfl : t = t₀ := Option.some.inj (hnew.symm.trans hnew')
      obtain ⟨d, hd, rfl⟩ := waiting_of_ends hends hwaiting
      have hrank := length_add_rank_le
        (orderlyTree_new hante hblinds hblind hfunded hnew) hblind htrace
      have hpos := GameTree.rank_pos hd
      rw [List.append_nil]
      omega

end Hand

end VibePoker.Game
