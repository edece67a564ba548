import VibePoker.Game.Ledger

/-!
# Bets and contenders

What an answer does to the bet of the street and to the number of contenders.
The bet never goes down within a street, and no seat bets more than it unless
the forced bets already did, which takes an ante or a lone seat; a seat leaves
the hand only by folding.

## Main definitions

* `BetsBounded` — no street bet exceeds the current bet
* `blindsOf` — the blinds a seat has to post

## Main results

* `currentBet_le_acted`, `BetsBounded.acted` — one answer
* `forcedPlayer_bet_of_active` — what a seat has bet when the betting starts
* `playersStillIn_acted` — the contenders after an answer
-/

namespace VibePoker.Game

open VibePoker.Core VibePoker.CS VibePoker.Math

variable {n : ℕ} {e : Engine}

/-! ## The current bet -/

/-- No street bet exceeds the current bet. -/
def BetsBounded (s : GameState n) : Prop := ∀ i, (s.players i).betThisStreet ≤ s.currentBet

/-- The street bet of a raise that survives normalisation. -/
theorem put_bet_of_raise {s : GameState n} {seat : Fin n} {raw : Action} {amount : ℕ}
    (h : Engine.normalizeAction s seat raw = .raise amount) :
    ((s.players seat).put (amount - (s.players seat).betThisStreet)).betThisStreet =
      max (s.players seat).betThisStreet amount := by
  obtain ⟨hless, -⟩ := normalizeAction_eq_raise h
  rw [PlayerState.put_bet]
  omega

theorem currentBet_le_performAction (s : GameState n) (seat : Fin n) (raw : Action) :
    s.currentBet ≤
      (Engine.performAction s seat (Engine.normalizeAction s seat raw)).1.currentBet := by
  cases hnorm : Engine.normalizeAction s seat raw with
  | fold => exact le_rfl
  | check => exact le_rfl
  | call => exact le_rfl
  | raise amount =>
    obtain ⟨-, hmin⟩ := normalizeAction_eq_raise hnorm
    simp only [Engine.performAction, put_bet_of_raise hnorm]
    omega
  | allIn =>
    simp only [Engine.performAction]
    split_ifs with hover
    · exact hover.le
    · exact hover.le
    · exact le_rfl

/-- Within a street the bet does not go down. -/
theorem currentBet_le_acted (d : Decision n) (action : Action) :
    d.state.currentBet ≤ (d.acted action).currentBet :=
  currentBet_le_performAction _ _ _

theorem BetsBounded.performAction {s : GameState n} (h : BetsBounded s) (seat : Fin n)
    (raw : Action) :
    BetsBounded (Engine.performAction s seat (Engine.normalizeAction s seat raw)).1 := by
  intro i
  have hmono := currentBet_le_performAction s seat raw
  by_cases hi : i = seat
  · subst hi
    have hbet := h i
    cases hnorm : Engine.normalizeAction s i raw with
    | fold => simpa [Engine.performAction] using hbet
    | check => exact hbet
    | call =>
      simp only [Engine.performAction, setPlayer_self, PlayerState.putAllIn_bet,
        PlayerState.put_bet, GameState.setPlayer_currentBet]
      omega
    | raise amount => simp [Engine.performAction]
    | allIn =>
      simp only [Engine.performAction]
      split_ifs with hover
      · simp
      · simp
      · simpa using hover
  · have hsame : ((Engine.performAction s seat
        (Engine.normalizeAction s seat raw)).1.players i).betThisStreet =
        (s.players i).betThisStreet := by
      cases Engine.normalizeAction s seat raw <;> simp only [Engine.performAction]
      case allIn => split_ifs <;> simp [setPlayer_of_ne s _ hi]
      all_goals simp [setPlayer_of_ne s _ hi]
    rw [hsame]
    exact (h i).trans hmono

theorem BetsBounded.acted {d : Decision n} (h : BetsBounded d.state) (action : Action) :
    BetsBounded (d.acted action) := BetsBounded.performAction h d.seat action

/-- A street without bets is bounded. -/
theorem BetsBounded.of_later {s s' : GameState n} {deck deck' : Deck}
    (hlater : Later (collectStreetBets s) deck s' deck') : BetsBounded s' := by
  intro i
  rw [hlater.players_eq]
  exact Nat.zero_le _

theorem BetsBounded.follows {d d' : Decision n} {action : Action} {deck : Deck} {t' : GameTree n}
    (h : BetsBounded d.state)
    (hfollows : Follows e (d.acted action) (d.respondedAfter action) deck t')
    (hd' : t'.decision? = some d') : BetsBounded d'.state := by
  cases hfollows.nextDecision hd' with
  | next seat hmany hopen =>
    exact h.acted action
  | street s' deck' first hmany hdone hlater =>
    exact (BetsBounded.of_later hlater : BetsBounded s')

/-! ## Forced bets -/

/-- The blinds a seat has to post. -/
def blindsOf (e : Engine) (startingStacks : List ℕ) (dealer : ℕ) (i : Fin startingStacks.length) :
    ℕ :=
  (if postsSb e startingStacks dealer i then e.rules.smallBlind else 0) +
    if postsBb e startingStacks dealer i then e.rules.bigBlind else 0

theorem putAllIn_bet_le (p : PlayerState) (amount : ℕ) :
    (p.putAllIn amount).betThisStreet ≤ p.betThisStreet + amount := by
  rw [PlayerState.putAllIn_bet, PlayerState.put_bet]
  omega

/-- A seat that can still act has posted in full. -/
theorem putAllIn_of_active {p : PlayerState} {amount : ℕ}
    (h : (p.putAllIn amount).status = .active) :
    p.status = .active ∧ (p.putAllIn amount).betThisStreet = p.betThisStreet + amount := by
  rw [PlayerState.putAllIn_status] at h
  split at h
  case isTrue => simp at h
  case isFalse hless =>
    rw [PlayerState.putAllIn_bet, PlayerState.put_bet]
    exact ⟨h, by omega⟩

theorem postAnte_bet_le (stack : ℕ) :
    (e.postAnte (freshPlayer stack)).betThisStreet ≤ e.rules.ante := by
  rw [postAnte_freshPlayer]
  split
  · exact (putAllIn_bet_le _ _).trans_eq (Nat.zero_add _)
  · exact Nat.zero_le _

theorem postAnte_bet_of_active {stack : ℕ}
    (h : (e.postAnte (freshPlayer stack)).status = .active) :
    (e.postAnte (freshPlayer stack)).betThisStreet = e.rules.ante := by
  rw [postAnte_freshPlayer] at h ⊢
  split at h
  case isTrue hpos =>
    rw [if_pos hpos]
    exact (putAllIn_of_active h).2.trans (Nat.zero_add _)
  case isFalse hnot => simp [freshPlayer, hnot] at h

/-- Nobody posts more than the forced bets. -/
theorem forcedPlayer_bet_le (startingStacks : List ℕ) (dealer : ℕ)
    (i : Fin startingStacks.length) :
    (forcedPlayer e startingStacks dealer i).betThisStreet ≤
      e.rules.ante + blindsOf e startingStacks dealer i := by
  have hante := postAnte_bet_le (e := e) (startingStacks.get i)
  simp only [forcedPlayer, forcedBets, blindsOf]
  cases postsSb e startingStacks dealer i <;> cases postsBb e startingStacks dealer i <;>
    simp only [if_true, Bool.false_eq_true, if_false]
  · omega
  · have := putAllIn_bet_le (e.postAnte (freshPlayer (startingStacks.get i))) e.rules.bigBlind
    omega
  · have := putAllIn_bet_le (e.postAnte (freshPlayer (startingStacks.get i))) e.rules.smallBlind
    omega
  · have := putAllIn_bet_le (e.postAnte (freshPlayer (startingStacks.get i))) e.rules.smallBlind
    have := putAllIn_bet_le ((e.postAnte (freshPlayer (startingStacks.get i))).putAllIn
      e.rules.smallBlind) e.rules.bigBlind
    omega

/-- A seat with chips behind has posted its ante and its blinds. -/
theorem forcedPlayer_bet_of_active {startingStacks : List ℕ} {dealer : ℕ}
    {i : Fin startingStacks.length}
    (h : (forcedPlayer e startingStacks dealer i).status = .active) :
    (forcedPlayer e startingStacks dealer i).betThisStreet =
      e.rules.ante + blindsOf e startingStacks dealer i := by
  simp only [forcedPlayer, forcedBets, blindsOf] at h ⊢
  cases hsb : postsSb e startingStacks dealer i <;>
    cases hbb : postsBb e startingStacks dealer i <;>
    simp only [hsb, hbb, if_true, Bool.false_eq_true, if_false] at h ⊢
  · exact postAnte_bet_of_active h
  · obtain ⟨hactive, hbet⟩ := putAllIn_of_active h
    rw [hbet, postAnte_bet_of_active hactive, Nat.zero_add]
  · obtain ⟨hactive, hbet⟩ := putAllIn_of_active h
    rw [hbet, postAnte_bet_of_active hactive, Nat.add_zero]
  · obtain ⟨hactive, hbet⟩ := putAllIn_of_active h
    obtain ⟨hactive', hbet'⟩ := putAllIn_of_active hactive
    rw [hbet, hbet', postAnte_bet_of_active hactive', Nat.add_assoc]

theorem putAllIn_active_iff {p : PlayerState} {amount : ℕ} :
    (p.putAllIn amount).status = .active ↔ p.status = .active ∧ amount < p.stack := by
  rw [PlayerState.putAllIn_status]
  split
  case isTrue hle =>
    simp only [reduceCtorEq, false_iff, not_and]
    omega
  case isFalse hless =>
    exact ⟨fun h => ⟨h, by omega⟩, fun h => h.1⟩

theorem postAnte_active_iff {stack : ℕ} :
    (e.postAnte (freshPlayer stack)).status = .active ↔ e.rules.ante < stack := by
  rw [postAnte_freshPlayer]
  split
  case isTrue hpos =>
    rw [putAllIn_active_iff]
    simp [freshPlayer, hpos]
  case isFalse hnot =>
    simp only [freshPlayer, gt_iff_lt, hnot, if_false, reduceCtorEq, false_iff]
    omega

theorem postAnte_stack {stack : ℕ} :
    (e.postAnte (freshPlayer stack)).stack = stack - e.rules.ante := by
  rw [postAnte_freshPlayer]
  split
  · rw [PlayerState.putAllIn_stack, PlayerState.put_stack]
    rfl
  · change stack = _
    omega

/-- A seat has chips behind its forced bets if it had more than it has to post. -/
theorem forcedPlayer_active_iff {startingStacks : List ℕ} {dealer : ℕ}
    {i : Fin startingStacks.length} : (forcedPlayer e startingStacks dealer i).status = .active ↔
      e.rules.ante + blindsOf e startingStacks dealer i < startingStacks.get i := by
  simp only [forcedPlayer, forcedBets, blindsOf]
  cases postsSb e startingStacks dealer i <;> cases postsBb e startingStacks dealer i <;>
    simp only [if_true, Bool.false_eq_true, if_false, putAllIn_active_iff, postAnte_active_iff,
      PlayerState.putAllIn_stack, PlayerState.put_stack, postAnte_stack] <;>
    omega

section Opening

variable {handId : ℕ} {deck deck' : Deck} {startingStacks : List ℕ} {dealer : ℕ}
  {seatKinds : Option (List SeatKind)} {s : GameState startingStacks.length}

/-- With two seats that hold chips the blinds are different seats. -/
theorem blindSeats_ne (hfunded : 2 ≤ fundedSeats startingStacks) :
    sbSeat (e.initState 0 startingStacks dealer) ≠
      bbSeat (e.initState 0 startingStacks dealer) := by
  rw [fundedSeats_eq_card] at hfunded
  obtain ⟨j, hj, k, hk, hne⟩ := Finset.one_lt_card.mp hfunded
  simp only [Finset.mem_filter, Finset.mem_univ, true_and] at hj hk
  have hin : ∀ l, 0 < startingStacks.get l →
      ((e.initState 0 startingStacks dealer).players l).stillIn := by
    intro l hl
    rw [initState_players, freshPlayer_stillIn]
    simpa using hl
  exact sbSeat_ne_bbSeat (hin j hj) (hin k hk) hne

/-- Two seats with chips share the blinds. -/
theorem not_postsBoth (hfunded : 2 ≤ fundedSeats startingStacks)
    {i : Fin startingStacks.length} (hsb : postsSb e startingStacks dealer i) :
    postsBb e startingStacks dealer i = false := by
  have hdiff := @blindSeats_ne e startingStacks dealer hfunded
  simp only [postsSb, postsBb, decide_eq_true_eq, decide_eq_false_iff_not] at hsb ⊢
  omega

/-- A single seat with chips posts both blinds. -/
theorem postsBoth (hfunded : fundedSeats startingStacks = 1) {i : Fin startingStacks.length}
    (hi : 0 < startingStacks.get i) :
    postsSb e startingStacks dealer i ∧ postsBb e startingStacks dealer i := by
  have honly : ∀ j, 0 < startingStacks.get j → j = i := by
    intro j hj
    rw [fundedSeats_eq_card] at hfunded
    exact Finset.card_le_one.mp hfunded.le j (by simpa using hj) i (by simpa using hi)
  have hin : ((e.initState 0 startingStacks dealer).players i).stillIn := by
    rw [initState_players, freshPlayer_stillIn]
    simpa using hi
  obtain ⟨sb, hsb, hsbIn⟩ := sbSeat_stillIn hin
  obtain ⟨bb, hbb, hbbIn⟩ := bbSeat_stillIn hin
  rw [initState_players, freshPlayer_stillIn, decide_eq_true_eq] at hsbIn hbbIn
  rw [honly sb hsbIn] at hsb
  rw [honly bb hbbIn] at hbb
  simp [postsSb, postsBb, hsb, hbb]

/-- Without antes no forced bet exceeds the big blind. -/
theorem Opened.betsBounded (h : Opened e handId deck startingStacks dealer seatKinds s deck')
    (hante : e.rules.ante = 0) (hblinds : e.rules.smallBlind ≤ e.rules.bigBlind)
    (hfunded : 2 ≤ fundedSeats startingStacks) : BetsBounded s := by
  intro i
  have hbet := forcedPlayer_bet_le (e := e) startingStacks dealer i
  have hblind : blindsOf e startingStacks dealer i ≤ e.rules.bigBlind := by
    rw [blindsOf]
    cases hsb : postsSb e startingStacks dealer i with
    | true => simpa [not_postsBoth hfunded hsb] using hblinds
    | false =>
      simp only [Bool.false_eq_true, if_false, Nat.zero_add]
      split
      · exact le_rfl
      · exact Nat.zero_le _
  rw [h.players_eq i, h.currentBet_eq]
  dsimp only
  omega

end Opening

/-! ## Contenders -/

/-- An active seat leaves the hand only by folding. -/
theorem acted_stillIn_of_ne_fold {d : Decision n}
    (hactive : (d.state.players d.seat).status = .active)
    {action : Action} (hne : action ≠ .fold) : ((d.acted action).players d.seat).stillIn := by
  have hin : (d.state.players d.seat).stillIn := by simp [PlayerState.stillIn, hactive]
  rw [Decision.acted]
  cases hnorm : Engine.normalizeAction d.state d.seat action with
  | fold =>
    cases action with
    | fold => exact absurd rfl hne
    | raise amount =>
      simp only [Engine.normalizeAction] at hnorm
      split_ifs at hnorm
    | _ => simp [Engine.normalizeAction] at hnorm
  | check => exact hin
  | call =>
    simp only [Engine.performAction, setPlayer_self]
    exact PlayerState.putAllIn_stillIn hin _
  | raise amount =>
    simp [Engine.performAction, PlayerState.stillIn, hactive]
  | allIn =>
    simp only [Engine.performAction]
    split_ifs <;> simp [PlayerState.stillIn]

theorem acted_fold (d : Decision n) :
    d.acted .fold = d.state.setPlayer d.seat { d.state.players d.seat with status := .folded } :=
  rfl

/-- A fold takes one contender out, every other answer none. -/
theorem playersStillIn_acted {d : Decision n}
    (hactive : (d.state.players d.seat).status = .active)
    (hacted : ∀ action, ActedBy d.state d.seat (d.acted action)) (action : Action) :
    (d.acted action).playersStillIn =
      if action = .fold then d.state.playersStillIn - 1 else d.state.playersStillIn := by
  have hin : (d.state.players d.seat).stillIn := by simp [PlayerState.stillIn, hactive]
  split
  case isTrue hfold =>
    subst hfold
    have herase : (Finset.univ.filter fun i => ((d.acted .fold).players i).stillIn) =
        (Finset.univ.filter fun i => (d.state.players i).stillIn).erase d.seat := by
      ext i
      by_cases hi : i = d.seat
      · subst hi
        simp [acted_fold, PlayerState.stillIn]
      · simp [hi, (hacted .fold).others i hi]
    rw [GameState.playersStillIn, herase, Finset.card_erase_of_mem (by simpa using hin)]
    rfl
  case isFalse hne =>
    rw [GameState.playersStillIn, GameState.playersStillIn]
    congr 1
    ext i
    by_cases hi : i = d.seat
    · subst hi
      simp [acted_stillIn_of_ne_fold hactive hne, hin]
    · simp [(hacted action).others i hi]

end VibePoker.Game
