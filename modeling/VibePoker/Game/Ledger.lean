import VibePoker.Game.Step

/-!
# The ledger of a hand

Chips are only moved: what a seat has left and what it has committed add up to
its starting stack, and the pot holds what was committed on earlier streets. The
ledger is kept by every answer, so it holds at every decision of a hand.

## Main definitions

* `SeatLedger` — the accounts of one seat
* `Ledger` — the accounts of the table

## Main results

* `Opened.ledger` — the ledger holds when the betting starts
* `Ledger.acted`, `Ledger.later` — actions and street changes keep it
* `playing_of_trace` — it holds at every decision reached
-/

namespace VibePoker.Game

open VibePoker.Core VibePoker.CS VibePoker.Math

variable {n : ℕ} {e : Engine}

/-! ## One seat -/

/-- The accounts of a seat that started with `start` chips. -/
structure SeatLedger (start : ℕ) (p : PlayerState) : Prop where
  stack_add : p.stack + p.totalCommitted = start
  bet_le : p.betThisStreet ≤ p.totalCommitted
  stack_pos : p.status = .active → 0 < p.stack
  stack_eq : p.status = .allIn → p.stack = 0
  start_eq : p.status = .out → start = 0

namespace SeatLedger

variable {start : ℕ} {p p' : PlayerState}

theorem put (h : SeatLedger start p) {amount : ℕ} (hless : amount < p.stack) :
    SeatLedger start (p.put amount) where
  stack_add := by
    have := h.stack_add
    simp only [PlayerState.put]
    omega
  bet_le := by
    have := h.bet_le
    simp only [PlayerState.put]
    omega
  stack_pos _ := by
    rw [PlayerState.put_stack]
    omega
  stack_eq hstatus := by
    have := h.stack_eq hstatus
    omega
  start_eq := h.start_eq

theorem allIn (h : SeatLedger start p) :
    SeatLedger start { p.put p.stack with status := .allIn } where
  stack_add := by
    have := h.stack_add
    simp only [PlayerState.put]
    omega
  bet_le := by
    have := h.bet_le
    simp only [PlayerState.put]
    omega
  stack_pos := by simp
  stack_eq _ := by simp [PlayerState.put_stack]
  start_eq := by simp

theorem fold (h : SeatLedger start p) : SeatLedger start { p with status := .folded } :=
  ⟨h.stack_add, h.bet_le, by simp, by simp, by simp⟩

/-- Acting keeps the accounts of a seat. -/
theorem acts (h : SeatLedger start p) (hacts : Acts p p') : SeatLedger start p' := by
  cases hacts with
  | folds => exact h.fold
  | pays amount hless => exact h.put hless
  | allIn => exact h.allIn

/-- Posting a forced bet keeps the accounts of a seat that holds chips. -/
theorem putAllIn (h : SeatLedger start p) (amount : ℕ) : SeatLedger start (p.putAllIn amount) :=
  h.acts (acts_putAllIn p amount)

theorem freshPlayer (stack : ℕ) : SeatLedger stack (freshPlayer stack) := by
  by_cases hpos : 0 < stack
  · exact ⟨rfl, le_rfl, fun _ => hpos, by simp [Game.freshPlayer, hpos],
      by simp [Game.freshPlayer, hpos]⟩
  · exact ⟨rfl, le_rfl, by simp [Game.freshPlayer, hpos], by simp [Game.freshPlayer, hpos],
      fun _ => by omega⟩

/-- Collecting the street bets keeps the accounts of a seat. -/
theorem collect (h : SeatLedger start p) : SeatLedger start { p with betThisStreet := 0 } :=
  ⟨h.stack_add, Nat.zero_le _, h.stack_pos, h.stack_eq, h.start_eq⟩

/-- What a seat has in the pot does not change when it acts. -/
theorem collected_eq (h : SeatLedger start p) (hacts : Acts p p') :
    p'.totalCommitted - p'.betThisStreet = p.totalCommitted - p.betThisStreet := by
  have := h.bet_le
  cases hacts with
  | folds => rfl
  | pays amount hless =>
    simp only [PlayerState.put]
    omega
  | allIn =>
    simp only [PlayerState.put]
    omega

end SeatLedger

/-! ## The table -/

/-- The accounts of a table whose seats started with `start`. -/
structure Ledger (start : Fin n → ℕ) (s : GameState n) : Prop where
  seat : ∀ i, SeatLedger (start i) (s.players i)
  pot_eq : s.pot.total = ∑ i, ((s.players i).totalCommitted - (s.players i).betThisStreet)

namespace Ledger

variable {start : Fin n → ℕ} {s s' : GameState n}

/-- Pot and street bets together are all the chips committed. -/
theorem potTotal_eq (h : Ledger start s) :
    s.pot.total + ∑ i, (s.players i).betThisStreet = ∑ i, (s.players i).totalCommitted := by
  rw [h.pot_eq, ← Finset.sum_add_distrib]
  refine Finset.sum_congr rfl fun i _ => ?_
  have := (h.seat i).bet_le
  omega

/-- No chips are made or lost while they are bet. -/
theorem sum_stack_add (h : Ledger start s) :
    ∑ i, (s.players i).stack + ∑ i, (s.players i).totalCommitted = ∑ i, start i := by
  rw [← Finset.sum_add_distrib]
  exact Finset.sum_congr rfl fun i _ => (h.seat i).stack_add

theorem acted {seat : Fin n} (h : Ledger start s) (hacted : ActedBy s seat s') :
    Ledger start s' := by
  have hpot : s'.pot = s.pot := by rw [hacted.table]
  refine ⟨fun i => ?_, ?_⟩
  · by_cases hi : i = seat
    · exact hi ▸ (h.seat seat).acts hacted.acts
    · rw [hacted.others i hi]
      exact h.seat i
  · rw [hpot, h.pot_eq]
    refine Finset.sum_congr rfl fun i _ => ?_
    by_cases hi : i = seat
    · subst hi
      exact ((h.seat i).collected_eq hacted.acts).symm
    · rw [hacted.others i hi]

theorem collect (h : Ledger start s) : Ledger start (collectStreetBets s) := by
  refine ⟨fun i => (h.seat i).collect, ?_⟩
  have htotal := h.potTotal_eq
  simp only [collectStreetBets, Pot.total, Nat.sub_zero] at htotal ⊢
  omega

theorem congr (h : Ledger start s) (hplayers : s'.players = s.players) (hpot : s'.pot = s.pot) :
    Ledger start s' := by
  refine ⟨fun i => ?_, ?_⟩
  · rw [hplayers]
    exact h.seat i
  · rw [hpot, hplayers]
    exact h.pot_eq

theorem later {deck deck' : Deck} (h : Ledger start s) (hlater : Later s deck s' deck') :
    Ledger start s' := h.congr hlater.players_eq hlater.pot_eq

theorem setActionOn (h : Ledger start s) (seat : Option (Fin n)) :
    Ledger start (s.setActionOn seat) := h.congr rfl rfl

end Ledger

theorem SeatLedger.forcedBets (stack : ℕ) (isSb isBb : Bool) :
    SeatLedger stack (forcedBets e stack isSb isBb) := by
  have hante : SeatLedger stack (e.postAnte (Game.freshPlayer stack)) := by
    rw [postAnte_freshPlayer]
    split
    · exact (SeatLedger.freshPlayer stack).putAllIn _
    · exact SeatLedger.freshPlayer stack
  have hsb : SeatLedger stack (if isSb then
      (e.postAnte (Game.freshPlayer stack)).putAllIn e.rules.smallBlind
      else e.postAnte (Game.freshPlayer stack)) := by
    split
    · exact hante.putAllIn _
    · exact hante
  simp only [Game.forcedBets]
  split
  · exact hsb.putAllIn _
  · exact hsb

/-- Forced bets are street bets: nothing is in the pot yet. -/
theorem forcedBets_bet_eq (stack : ℕ) (isSb isBb : Bool) :
    (forcedBets e stack isSb isBb).betThisStreet =
      (forcedBets e stack isSb isBb).totalCommitted := by
  have hput : ∀ (p : PlayerState) (amount : ℕ), p.betThisStreet = p.totalCommitted →
      (p.putAllIn amount).betThisStreet = (p.putAllIn amount).totalCommitted := by
    intro p amount h
    simp [PlayerState.put_bet, PlayerState.put_committed, h]
  have hante : (e.postAnte (freshPlayer stack)).betThisStreet =
      (e.postAnte (freshPlayer stack)).totalCommitted := by
    rw [postAnte_freshPlayer]
    split
    · exact hput _ _ rfl
    · rfl
  cases isSb <;> cases isBb <;> simp only [forcedBets, if_true, Bool.false_eq_true, if_false]
  · exact hante
  · exact hput _ _ hante
  · exact hput _ _ hante
  · exact hput _ _ (hput _ _ hante)

section Opening

variable {handId : ℕ} {deck deck' : Deck} {startingStacks : List ℕ} {dealer : ℕ}
  {seatKinds : Option (List SeatKind)} {s : GameState startingStacks.length}

theorem statusAfterFold_cases (dead : Bool) (status : PlayerStatus) :
    statusAfterFold dead status = status ∨ statusAfterFold dead status = .folded := by
  unfold statusAfterFold
  split
  · exact Or.inr rfl
  · exact Or.inl rfl

theorem statusAfterFold_eq_active {dead : Bool} {status : PlayerStatus} :
    statusAfterFold dead status = .active ↔ dead = false ∧ status = .active := by
  cases dead <;> cases status <;> simp [statusAfterFold]

/-- The ledger holds when the betting starts. -/
theorem Opened.ledger (h : Opened e handId deck startingStacks dealer seatKinds s deck') :
    Ledger startingStacks.get s := by
  refine ⟨fun i => ?_, ?_⟩
  · have hforced : SeatLedger (startingStacks.get i) (forcedPlayer e startingStacks dealer i) :=
      SeatLedger.forcedBets _ _ _
    rw [h.players_eq i]
    rcases statusAfterFold_cases (deadHand seatKinds i)
      (forcedPlayer e startingStacks dealer i).status with hstatus | hstatus
    · exact ⟨hforced.stack_add, hforced.bet_le, by rw [hstatus]; exact hforced.stack_pos,
        by rw [hstatus]; exact hforced.stack_eq, by rw [hstatus]; exact hforced.start_eq⟩
    · exact ⟨hforced.stack_add, hforced.bet_le, by simp [hstatus], by simp [hstatus],
        by simp [hstatus]⟩
  · rw [h.pot_eq, eq_comm]
    refine Finset.sum_eq_zero fun i _ => ?_
    rw [h.players_eq i]
    exact Nat.sub_eq_zero_of_le (forcedBets_bet_eq _ _ _).ge

end Opening

/-! ## Along a run -/

/-- What holds at every decision of a hand in which `dealt` hole cards were
dealt. -/
structure Playing (start : Fin n → ℕ) (dealt : ℕ) (deck : Deck) (d : Decision n) : Prop where
  ledger : Ledger start d.state
  board_fits : BoardFits d.state
  holeCards_ne : ∀ i, (d.state.players i).stillIn → (d.state.players i).holeCards ≠ none
  start_pos : ∀ i, (d.state.players i).stillIn → 0 < start i
  isOpen : d.state.unsettled d.hasResponded d.seat
  cursor_eq : deck.cursor = dealt + d.state.board.length

theorem unsettled_active {s : GameState n} {hasResponded : Fin n → Bool} {i : Fin n}
    (h : s.unsettled hasResponded i) : (s.players i).status = .active := by
  simp only [GameState.unsettled, Bool.and_eq_true, decide_eq_true_eq] at h
  exact h.1

theorem Acts.holeCards_eq {p p' : PlayerState} (h : Acts p p') : p'.holeCards = p.holeCards := by
  cases h <;> rfl

namespace Playing

variable {start : Fin n → ℕ} {dealt : ℕ} {deck : Deck} {d : Decision n}

theorem active (h : Playing start dealt deck d) : (d.state.players d.seat).status = .active :=
  unsettled_active h.isOpen

/-- The acting seat has cards to look at. -/
theorem observation_ne (h : Playing start dealt deck d) : d.observation e ≠ none := by
  have := h.holeCards_ne d.seat (by simp [PlayerState.stillIn, h.active])
  simpa [Decision.observation] using this

theorem actedBy (h : Playing start dealt deck d) (action : Action) :
    ActedBy d.state d.seat (d.acted action) :=
  actedBy_performAction ((h.ledger.seat d.seat).stack_pos h.active) action

theorem acted_stillIn (h : Playing start dealt deck d) (action : Action) {i : Fin n}
    (hin : ((d.acted action).players i).stillIn) : (d.state.players i).stillIn := by
  by_cases hi : i = d.seat
  · subst hi
    simp [PlayerState.stillIn, h.active]
  · rwa [(h.actedBy action).others i hi] at hin

theorem acted_holeCards_ne (h : Playing start dealt deck d) (action : Action) (i : Fin n)
    (hin : ((d.acted action).players i).stillIn) :
    ((d.acted action).players i).holeCards ≠ none := by
  have hcards := h.holeCards_ne i (h.acted_stillIn action hin)
  by_cases hi : i = d.seat
  · subst hi
    rwa [(h.actedBy action).acts.holeCards_eq]
  · rwa [(h.actedBy action).others i hi]

/-- Every answer leads to what follows it, with the accounts in order. -/
theorem follows (h : Playing start dealt deck d) {t t' : GameTree n} {action : Action}
    (hd : t.decision? = some d) (hstep : (t.applyAction e action).2 = some t') :
    Follows e (d.acted action) (d.respondedAfter action) t.deck t' :=
  follows_of_applyAction hd (boardFits_acted h.board_fits action) hstep

end Playing

/-- A step leads from a decision in order to a decision in order. -/
theorem playing_of_follows {start : Fin n → ℕ} {dealt : ℕ} {deck : Deck} {d d' : Decision n}
    {action : Action} {t' : GameTree n} (h : Playing start dealt deck d)
    (hfollows : Follows e (d.acted action) (d.respondedAfter action) deck t')
    (hd' : t'.decision? = some d') : Playing start dealt t'.deck d' := by
  have hledger : Ledger start (d.acted action) := h.ledger.acted (h.actedBy action)
  have hboard : (d.acted action).board = d.state.board := performAction_board _ _ _
  cases hfollows with
  | uncontested winner hone hwinner => simp at hd'
  | showdown => simp at hd'
  | next seat hmany hopen =>
    rw [GameTree.atDecision_decision?, Option.some.injEq] at hd'
    subst hd'
    exact ⟨hledger.setActionOn _, boardFits_acted h.board_fits action,
      h.acted_holeCards_ne action, fun i hin => h.start_pos i (h.acted_stillIn action hin), hopen,
      h.cursor_eq.trans (by rw [← hboard]; rfl)⟩
  | street s' deck' first hmany hdone hlater hfresh hleft hfirst =>
    rw [GameTree.atDecision_decision?, Option.some.injEq] at hd'
    subst hd'
    have hplayers := hlater.players_eq
    -- the dealing of a street changes the board and the deck, and leaves the seats alone
    refine ⟨(hledger.collect.later hlater).setActionOn _, hfresh.board_fits, ?_, ?_, ?_, ?_⟩
    · intro i hin
      have := h.acted_holeCards_ne action i
      simp only [GameState.setActionOn_players, hplayers] at hin ⊢
      exact this hin
    · intro i hin
      simp only [GameState.setActionOn_players, hplayers] at hin
      exact h.start_pos i (h.acted_stillIn action hin)
    · simp [GameState.unsettled, firstToAct_active hfirst]
    · have hcursor := hlater.cursor_eq
      have := h.cursor_eq
      have hcollect : (collectStreetBets (d.acted action)).board = d.state.board := hboard
      rw [hcollect] at hcursor
      simp only [GameState.setActionOn_board, GameTree.atDecision]
      omega

/-- Every decision reached in a run is in order. -/
theorem playing_of_trace {start : Fin n → ℕ} {dealt : ℕ} {ok : Decision n → Action → Prop}
    {t t' : GameTree n} {used : List Action} (htrace : Trace (GameTree.Step e ok) t used t')
    (h : ∀ d, t.decision? = some d → Playing start dealt t.deck d) :
    ∀ d, t'.decision? = some d → Playing start dealt t'.deck d := by
  refine htrace.invariant (fun t => ∀ d, t.decision? = some d → Playing start dealt t.deck d)
    ?_ h
  rintro t action t' hinv ⟨d, hd, -, hstep⟩ d' hd'
  exact playing_of_follows (hinv d hd) ((hinv d hd).follows hd hstep) hd'

/-! ## From the start of a hand -/

section Start

variable {handId deckSeed : ℕ} {order : Fin 52 → Card} {startingStacks : List ℕ} {dealer : ℕ}
  {seatKinds : Option (List SeatKind)} {t : GameTree startingStacks.length}

/-- A new tree asks an active seat, or has no active seat and has paid the first
seat still in. -/
theorem new_cases
    (h : (GameTree.new e handId deckSeed order startingStacks dealer seatKinds).2 = some t) :
    ∃ s deck, Opened e handId (.new order) startingStacks dealer seatKinds s deck ∧
      ((∃ first, (s.players first).status = .active ∧
          t = .atDecision s deck first fun _ => false) ∨
        ((∀ i, (s.players i).status ≠ .active) ∧ ∃ winner, s.firstStillIn = some winner ∧
          t = .uncontested s deck winner)) := by
  rw [GameTree.new] at h
  cases hsetup : setupHand e (.new order) (e.initState handId startingStacks dealer) seatKinds with
  | none => simp [hsetup] at h
  | some opened =>
    obtain ⟨s, deck, canonicalBb, events⟩ := opened
    refine ⟨s, deck, opened_of_setupHand (Nat.zero_le 52) hsetup, ?_⟩
    simp only [hsetup] at h
    cases hfirst : nextActiveAfter canonicalBb s.players with
    | some first =>
      simp only [hfirst, Option.some.injEq] at h
      exact Or.inl ⟨first, nextActiveAfter_active hfirst, h.symm⟩
    | none =>
      simp only [hfirst, Option.bind_eq_bind, Option.bind_eq_some_iff, Option.some.injEq] at h
      obtain ⟨winner, hwinner, rfl⟩ := h
      have hnone := (find?_ringAfter_eq_none_iff _ _).mp hfirst
      exact Or.inr ⟨fun i => by simpa using hnone i, winner, hwinner, rfl⟩

theorem Opened.funded_of_active {deck deck' : Deck} {s : GameState startingStacks.length}
    (h : Opened e handId deck startingStacks dealer seatKinds s deck')
    {i : Fin startingStacks.length} (hactive : (s.players i).status = .active) :
    0 < startingStacks.get i := by
  have := (h.ledger.seat i).stack_add
  have := (h.ledger.seat i).stack_pos hactive
  omega

theorem fundedSeats_pos {i : Fin startingStacks.length} (h : 0 < startingStacks.get i) :
    0 < fundedSeats startingStacks :=
  List.countP_pos_iff.mpr ⟨startingStacks.get i, List.get_mem _ _, by simpa using h⟩

/-- Only seats that had chips are in. -/
theorem Opened.start_pos {deck deck' : Deck} {s : GameState startingStacks.length}
    (h : Opened e handId deck startingStacks dealer seatKinds s deck')
    (hfunded : 0 < fundedSeats startingStacks) {i : Fin startingStacks.length}
    (hin : (s.players i).stillIn) : 0 < startingStacks.get i := by
  have hforced : (forcedPlayer e startingStacks dealer i).stillIn := by
    rw [h.players_eq i] at hin
    rcases statusAfterFold_cases (deadHand seatKinds i)
      (forcedPlayer e startingStacks dealer i).status with hstatus | hstatus
    · simpa [PlayerState.stillIn, hstatus] using hin
    · simp [PlayerState.stillIn, hstatus] at hin
  simpa [forcedPlayer_stillIn hfunded] using hforced

/-- A deck has hole cards for 26 seats. -/
theorem setupHand_eq_none (hcards : 26 < fundedSeats startingStacks) :
    setupHand e (.new order) (e.initState handId startingStacks dealer) seatKinds = none := by
  rw [← Option.not_isSome_iff_eq_none, setupHand_isSome_iff (by omega) (Nat.zero_le 52)]
  simp only [Deck.new]
  omega

theorem new_eq_none (hcards : 26 < fundedSeats startingStacks) :
    (GameTree.new e handId deckSeed order startingStacks dealer seatKinds).2 = none := by
  rw [GameTree.new, setupHand_eq_none hcards]

/-- Without hole cards for every seat the hand panics in its setup. -/
theorem runHand_of_tooMany (hcards : 26 < fundedSeats startingStacks) (answers : List Action) :
    runHand e handId deckSeed order startingStacks dealer seatKinds answers =
      (.event (.handStarted handId dealer deckSeed) ::
        (setupEvents e (.new order) (e.initState handId startingStacks dealer)).map .event,
        .panicked) := by
  simp only [runHand, setupHand_eq_none hcards]

/-- A hand that was set up has the cards for its seats, and dead hands at the
table only. -/
theorem fits_of_new (hfunded : 0 < fundedSeats startingStacks)
    (h : (GameTree.new e handId deckSeed order startingStacks dealer seatKinds).2 = some t) :
    fundedSeats startingStacks ≤ 26 ∧ KindsFit seatKinds startingStacks.length := by
  rw [GameTree.new] at h
  cases hsetup : setupHand e (.new order) (e.initState handId startingStacks dealer) seatKinds with
  | none => simp [hsetup] at h
  | some opened =>
    obtain ⟨hcards, hkinds⟩ := (setupHand_isSome_iff hfunded (Nat.zero_le 52)).mp
      (Option.isSome_iff_exists.mpr ⟨opened, hsetup⟩)
    simp only [Deck.new] at hcards
    exact ⟨by omega, hkinds⟩

theorem statusAfterFold_stillIn (dead : Bool) (p : PlayerState) :
    ({ p with status := statusAfterFold dead p.status } : PlayerState).stillIn =
      (p.stillIn && !dead) := by
  cases dead <;> cases hstatus : p.status <;>
    simp [PlayerState.stillIn, statusAfterFold, hstatus]

/-- The contenders of a hand are the seats with chips that are no dead hands. -/
theorem Opened.stillIn_eq {deck deck' : Deck} {s : GameState startingStacks.length}
    (h : Opened e handId deck startingStacks dealer seatKinds s deck')
    (hfunded : 0 < fundedSeats startingStacks) (i : Fin startingStacks.length) :
    (s.players i).stillIn =
      (decide (0 < startingStacks.get i) && !deadHand seatKinds i) := by
  rw [← forcedPlayer_stillIn (e := e) hfunded i, ← statusAfterFold_stillIn, h.players_eq i]
  rfl

/-- A hand can be set up if the deck has the hole cards, the dead hands are seats
of the table and somebody is left to play. -/
theorem new_isSome (hcards : fundedSeats startingStacks ≤ 26)
    (hkinds : KindsFit seatKinds startingStacks.length) {live : Fin startingStacks.length}
    (hlive : 0 < startingStacks.get live) (hdead : deadHand seatKinds live = false) :
    ∃ t, (GameTree.new e handId deckSeed order startingStacks dealer seatKinds).2 = some t := by
  have hfunded := fundedSeats_pos hlive
  have hsetup : (setupHand e (.new order) (e.initState handId startingStacks dealer)
      seatKinds).isSome := by
    refine (setupHand_isSome_iff hfunded (Nat.zero_le 52)).mpr ⟨?_, hkinds⟩
    simp only [Deck.new]
    omega
  obtain ⟨⟨s, deck, canonicalBb, events⟩, hsome⟩ := Option.isSome_iff_exists.mp hsetup
  have hopened := opened_of_setupHand (Nat.zero_le 52) hsome
  have hin : (s.players live).stillIn := by
    rw [hopened.stillIn_eq hfunded, hdead]
    simpa using hlive
  rw [GameTree.new]
  simp only [hsome]
  cases nextActiveAfter canonicalBb s.players with
  | some first => exact ⟨_, rfl⟩
  | none =>
    cases hwinner : s.firstStillIn with
    | some winner => exact ⟨_, rfl⟩
    | none =>
      have := (find?_finRange_eq_none_iff _).mp hwinner live
      simp [hin] at this

/-- The first decision of a hand is in order. -/
theorem playing_new
    (h : (GameTree.new e handId deckSeed order startingStacks dealer seatKinds).2 = some t)
    (d : Decision startingStacks.length) (hd : t.decision? = some d) :
    Playing startingStacks.get (2 * fundedSeats startingStacks) t.deck d := by
  obtain ⟨s, deck, hopened, ⟨first, hactive, rfl⟩ | ⟨-, winner, -, rfl⟩⟩ := new_cases h
  · rw [GameTree.atDecision_decision?, Option.some.injEq] at hd
    subst hd
    have hfunded := fundedSeats_pos (hopened.funded_of_active hactive)
    refine ⟨hopened.ledger.setActionOn _, ?_, hopened.holeCards_ne,
      fun i hin => hopened.start_pos hfunded hin, ?_, ?_⟩
    · rw [BoardFits, GameState.setActionOn_board, GameState.setActionOn_street, hopened.board_eq,
        hopened.street_eq]
      rfl
    · simp [GameState.unsettled, hactive]
    · simp [GameTree.atDecision, (hopened.cursor_eq hfunded).1, hopened.board_eq, Deck.new]
  · simp at hd

/-- Every decision of a hand is in order. -/
theorem playing_of_new {ok : Decision startingStacks.length → Action → Prop} {used : List Action}
    {t' : GameTree startingStacks.length}
    (h : (GameTree.new e handId deckSeed order startingStacks dealer seatKinds).2 = some t)
    (htrace : Trace (GameTree.Step e ok) t used t') {d : Decision startingStacks.length}
    (hd : t'.decision? = some d) :
    Playing startingStacks.get (2 * fundedSeats startingStacks) t'.deck d :=
  playing_of_trace htrace (playing_new h) d hd

/-- The state of a new tree carries the number of the hand. -/
theorem handId_of_new {ok : Decision startingStacks.length → Action → Prop} {used : List Action}
    {t' : GameTree startingStacks.length}
    (h : (GameTree.new e handId deckSeed order startingStacks dealer seatKinds).2 = some t)
    (htrace : Trace (GameTree.Step e ok) t used t') : t'.state.handId = handId := by
  have hstart : t.state.handId = handId := by
    obtain ⟨s, deck, hopened, ⟨first, -, rfl⟩ | ⟨-, winner, -, rfl⟩⟩ := new_cases h
    · exact hopened.handId_eq
    · exact hopened.handId_eq
  have hrestricted := htrace.restrict (fun t => ∀ d, t.decision? = some d →
      Playing startingStacks.get (2 * fundedSeats startingStacks) t.deck d)
    (fun t action t' hinv ⟨d, hd, _, hstep⟩ d' hd' =>
      playing_of_follows (hinv d hd) ((hinv d hd).follows hd hstep) hd') (playing_new h)
  refine (hrestricted.preserves (fun t => t.state.handId) ?_).trans hstart
  rintro t action t' ⟨hinv, d, hd, -, hstep⟩
  have hfollows := (hinv d hd).follows hd hstep
  rw [handId_of_follows hfollows, handId_acted, (GameTree.decision?_eq_some_iff.mp hd).2]

/-- A run of answers plays the tree they lead to. -/
theorem play_of_trace {start : Fin n → ℕ} {dealt : ℕ} {ok : Decision n → Action → Prop}
    {t t' : GameTree n} {used : List Action} (htrace : Trace (GameTree.Step e ok) t used t')
    (h : ∀ d, t.decision? = some d → Playing start dealt t.deck d) (rest : List Action) :
    (t.play e (used ++ rest)).2 = (t'.play e rest).2 := by
  induction htrace with
  | nil => rfl
  | @cons t t₁ t' action used head tail ih =>
    obtain ⟨d, hd, -, hstep⟩ := head
    obtain ⟨obs, hobs⟩ := Option.ne_none_iff_exists'.mp ((h d hd).observation_ne (e := e))
    rw [List.cons_append, GameTree.play_cons hd hobs, GameTree.playFrom, hstep]
    exact ih fun d' hd' => playing_of_follows (h d hd) ((h d hd).follows hd hstep) hd'

end Start

end VibePoker.Game
