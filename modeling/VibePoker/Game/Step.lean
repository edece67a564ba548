import VibePoker.Game.Run
import VibePoker.Game.Setup

/-!
# What one answer does

Inversion lemmas for the stepper. An answer changes the acting seat and the
betting figures; then either a single contender is paid, or the round goes on
with the next unsettled seat, or the table moves to a later street, where either
a new round starts or the showdown is resolved.

## Main definitions

* `ActedBy` — the effect of an action on a state
* `Later` — a state after further board cards

## Main results

* `actedBy_performAction` — every action has such an effect
* `applyAction_cases` — the three ways an answer is followed up
* `advanceStreets_cases` — the two ways the street loop ends
-/

namespace VibePoker.Game

open VibePoker.Core VibePoker.Math

variable {n : ℕ} {e : Engine}

/-! ## Boards and streets -/

/-- Board cards dealt once a street is under way. -/
def boardSize : Street → ℕ
  | .preflop => 0
  | .flop => 3
  | .turn => 4
  | .river | .showdown => 5

theorem boardSize_le (street : Street) : boardSize street ≤ 5 := by
  cases street <;> simp [boardSize]

/-- The streets that come after a street. -/
def streetsAfter : Street → List (Street × ℕ)
  | .preflop => Engine.postflop
  | .flop => [(.turn, 1), (.river, 1)]
  | .turn => [(.river, 1)]
  | .river | .showdown => []

theorem dealBoardCards_board {s s' : GameState n} {deck deck' : Deck} {count : ℕ}
    {street : Street} {event : EngineEvent}
    (h : Engine.dealBoardCards s deck count street = some (s', deck', event)) :
    ∃ cards, cards.length = count ∧ s' = s.extendBoard cards ∧
      event = .boardDealt street cards := by
  simp only [Engine.dealBoardCards, Option.bind_eq_bind, Option.bind_eq_some_iff,
    Option.some.injEq, Prod.mk.injEq, Prod.exists] at h
  obtain ⟨cards, _, hdeal, rfl, -, rfl⟩ := h
  exact ⟨cards, Deck.dealMany_length hdeal, rfl, rfl⟩

theorem nextStreet_eq_head? (street : Street) :
    GameTree.nextStreet street = (streetsAfter street).head? := by
  cases street <;> rfl

theorem streetsAfter_of_cons {street next : Street} {count : ℕ} {rest : List (Street × ℕ)}
    (h : streetsAfter street = (next, count) :: rest) :
    streetsAfter next = rest ∧ boardSize next = boardSize street + count := by
  cases street <;> simp [streetsAfter, Engine.postflop] at h <;> obtain ⟨⟨rfl, rfl⟩, rfl⟩ := h <;>
    exact ⟨rfl, rfl⟩

/-- The board of a state holds the cards of its street. -/
def BoardFits (s : GameState n) : Prop := s.board.length = boardSize s.street

@[simp] theorem performAction_street (s : GameState n) (seat : Fin n) (action : Action) :
    (Engine.performAction s seat action).1.street = s.street := by
  cases action <;> simp only [Engine.performAction, GameState.setPlayer]
  case allIn => split_ifs <;> rfl

@[simp] theorem performAction_board (s : GameState n) (seat : Fin n) (action : Action) :
    (Engine.performAction s seat action).1.board = s.board := by
  cases action <;> simp only [Engine.performAction, GameState.setPlayer]
  case allIn => split_ifs <;> rfl

@[simp] theorem applyAction_street (s : GameState n) (seat : Fin n) (action : Action) :
    (Engine.applyAction s seat action).1.street = s.street := performAction_street s seat action

@[simp] theorem applyAction_board (s : GameState n) (seat : Fin n) (action : Action) :
    (Engine.applyAction s seat action).1.board = s.board := performAction_board s seat action

theorem nextActiveAfter_active {start : ℕ} {players : Fin n → PlayerState} {seat : Fin n}
    (h : nextActiveAfter start players = some seat) : (players seat).status = .active := by
  simpa using List.find?_some h

theorem firstToAct_active {s : GameState n} {seat : Fin n}
    (h : Engine.firstToAct s = some seat) : (s.players seat).status = .active := by
  unfold Engine.firstToAct at h
  split at h
  · exact nextActiveAfter_active h
  · simp at h

theorem activeCount_le_playersStillIn (s : GameState n) :
    activeCount s.players ≤ s.playersStillIn := by
  refine Finset.card_le_card fun i hi => ?_
  simp only [Finset.mem_filter, Finset.mem_univ, true_and] at hi ⊢
  simp [PlayerState.stillIn, hi]

/-! ## What an action does to the acting seat -/

/-- How an action may change the acting seat: it folds, pays less than its
stack, or puts everything in. -/
inductive Acts (p : PlayerState) : PlayerState → Prop
  | folds : Acts p { p with status := .folded }
  | pays (amount : ℕ) (h : amount < p.stack) : Acts p (p.put amount)
  | allIn : Acts p { p.put p.stack with status := .allIn }

theorem PlayerState.put_of_le {p : PlayerState} {amount : ℕ} (h : p.stack ≤ amount) :
    p.put amount = p.put p.stack := by
  simp [PlayerState.put, h]

theorem acts_putAllIn (p : PlayerState) (amount : ℕ) : Acts p (p.putAllIn amount) := by
  have hstack := p.put_stack amount
  by_cases h : p.stack ≤ amount
  · rw [PlayerState.putAllIn, PlayerState.put_of_le h]
    rw [if_pos (by rw [PlayerState.put_stack]; omega)]
    exact .allIn
  · rw [PlayerState.putAllIn, if_neg (by omega)]
    exact .pays amount (by omega)

/-- The effect of an action: it changes the acting seat, and of the table only
the betting figures. -/
structure ActedBy (s : GameState n) (seat : Fin n) (s' : GameState n) : Prop where
  acts : Acts (s.players seat) (s'.players seat)
  others : ∀ i, i ≠ seat → s'.players i = s.players i
  table : s' = { s with
    players := s'.players
    lastAggressor := s'.lastAggressor
    currentBet := s'.currentBet
    minRaiseIncrement := s'.minRaiseIncrement
    cumulativeShortIncrement := s'.cumulativeShortIncrement }

@[simp] theorem setPlayer_self (s : GameState n) (seat : Fin n) (p : PlayerState) :
    (s.setPlayer seat p).players seat = p := by
  simp [setPlayer_players]

theorem setPlayer_of_ne (s : GameState n) {seat i : Fin n} (p : PlayerState) (h : i ≠ seat) :
    (s.setPlayer seat p).players i = s.players i := by
  simp [setPlayer_players, h]

/-- A raise that survives normalisation is not an all-in and is at least the
minimum raise. -/
theorem normalizeAction_eq_raise {s : GameState n} {seat : Fin n} {raw : Action} {amount : ℕ}
    (h : Engine.normalizeAction s seat raw = .raise amount) :
    amount - (s.players seat).betThisStreet < (s.players seat).stack ∧
      s.currentBet + s.minRaiseIncrement ≤ amount := by
  cases raw with
  | raise submitted =>
    simp only [Engine.normalizeAction] at h
    split_ifs at h
    case neg => simp_all
  | _ => simp [Engine.normalizeAction] at h

/-- Every normalised action of a seat with chips has such an effect. -/
theorem actedBy_performAction {s : GameState n} {seat : Fin n} (hstack : 0 < (s.players seat).stack)
    (raw : Action) :
    ActedBy s seat (Engine.performAction s seat (Engine.normalizeAction s seat raw)).1 := by
  cases hnorm : Engine.normalizeAction s seat raw with
  | fold =>
    refine ⟨?_, fun i hi => setPlayer_of_ne s _ hi, rfl⟩
    rw [Engine.performAction, setPlayer_self]
    exact .folds
  | check =>
    refine ⟨?_, fun i hi => rfl, rfl⟩
    simpa [Engine.performAction] using Acts.pays (p := s.players seat) 0 hstack
  | call =>
    refine ⟨?_, fun i hi => setPlayer_of_ne s _ hi, rfl⟩
    simp only [Engine.performAction, setPlayer_self]
    exact acts_putAllIn _ _
  | raise amount =>
    obtain ⟨hless, -⟩ := normalizeAction_eq_raise hnorm
    refine ⟨?_, fun i hi => setPlayer_of_ne s _ hi, rfl⟩
    simp only [Engine.performAction, setPlayer_self]
    exact .pays _ hless
  | allIn =>
    simp only [Engine.performAction]
    have hacts : Acts (s.players seat)
        { (s.players seat).put (s.players seat).stack with status := .allIn } := .allIn
    split_ifs
    · exact ⟨by simpa using hacts, fun i hi => setPlayer_of_ne s _ hi, rfl⟩
    · exact ⟨by simpa using hacts, fun i hi => setPlayer_of_ne s _ hi, rfl⟩
    · exact ⟨by simpa using hacts, fun i hi => setPlayer_of_ne s _ hi, rfl⟩

/-! ## What follows an answer -/

/-- The state after the answer to a decision. -/
def Decision.acted (d : Decision n) (action : Action) : GameState n :=
  (Engine.performAction d.state d.seat (Engine.normalizeAction d.state d.seat action)).1

/-- The seats that have responded after the answer to a decision. -/
def Decision.respondedAfter (d : Decision n) (action : Action) : Fin n → Bool :=
  Engine.respond d.hasResponded d.seat
    (Engine.performAction d.state d.seat (Engine.normalizeAction d.state d.seat action)).2.1

namespace GameTree

variable {t t' : GameTree n} {d : Decision n} {action : Action}

/-- The tree in which `winner` was paid without a showdown. -/
def uncontested (s : GameState n) (deck : Deck) (winner : Fin n) : GameTree n :=
  ⟨(Engine.awardUncontested s winner).1.setActionOn none, deck,
    .terminal (Engine.awardUncontested s winner).2⟩

/-- The tree at which `seat` is asked to act. -/
def atDecision (s : GameState n) (deck : Deck) (seat : Fin n) (hasResponded : Fin n → Bool) :
    GameTree n :=
  ⟨s.setActionOn (some seat), deck, .decision seat hasResponded⟩

@[simp] theorem atDecision_decision? (s : GameState n) (deck : Deck) (seat : Fin n)
    (hasResponded : Fin n → Bool) :
    (atDecision s deck seat hasResponded).decision? =
      some ⟨s.setActionOn (some seat), hasResponded, seat⟩ := rfl

@[simp] theorem uncontested_decision? (s : GameState n) (deck : Deck) (winner : Fin n) :
    (uncontested s deck winner).decision? = none := rfl

@[simp] theorem terminal_decision? (s : GameState n) (deck : Deck) (chipDeltas : Fin n → ℤ) :
    decision? ⟨s, deck, .terminal chipDeltas⟩ = none := rfl

theorem applyAction_snd (hd : t.decision? = some d) :
    (t.applyAction e action).2 =
      (advance e (d.acted action) t.deck d.seat (d.respondedAfter action)).2 := by
  obtain ⟨hphase, hstate⟩ := decision?_eq_some_iff.mp hd
  simp only [applyAction, hphase, hstate]
  rfl

/-- What follows an answer: a lone contender is paid, the next unsettled seat is
asked, or the street ends. -/
theorem applyAction_cases (hd : t.decision? = some d)
    (h : (t.applyAction e action).2 = some t') :
    ((d.acted action).playersStillIn = 1 ∧ ∃ winner,
        (d.acted action).firstStillIn = some winner ∧
          t' = uncontested (d.acted action) t.deck winner) ∨
      ((d.acted action).playersStillIn ≠ 1 ∧ ∃ next,
        (d.acted action).unsettled (d.respondedAfter action) next ∧
          t' = atDecision (d.acted action) t.deck next (d.respondedAfter action)) ∨
      ((d.acted action).playersStillIn ≠ 1 ∧
        (∀ i, (d.acted action).unsettled (d.respondedAfter action) i = false) ∧
          (advanceStreets e 4 ((collectStreetBets (d.acted action)).setActionOn none)
            t.deck).2 = some t') := by
  rw [applyAction_snd hd, advance] at h
  split at h
  case isTrue hone =>
    left
    simp only [Option.bind_eq_bind, Option.bind_eq_some_iff, Option.some.injEq] at h
    obtain ⟨winner, hwinner, rfl⟩ := h
    exact ⟨hone, winner, hwinner, rfl⟩
  case isFalse hmany =>
    right
    split at h
    case h_1 next hnext =>
      left
      obtain rfl := Option.some.inj h
      exact ⟨hmany, next, by simpa using List.find?_some hnext, rfl⟩
    case h_2 hnone =>
      right
      exact ⟨hmany, (find?_ringAfter_eq_none_iff _ _).mp hnone, h⟩

end GameTree

/-! ## From the end of a round to the next decision -/

/-- `s'` is `s` with further board cards from the deck, on a later street. -/
structure Later (s : GameState n) (deck : Deck) (s' : GameState n) (deck' : Deck) : Prop where
  players_eq : s'.players = s.players
  pot_eq : s'.pot = s.pot
  handId_eq : s'.handId = s.handId
  dealer_eq : s'.dealer = s.dealer
  satOut_eq : s'.satOut = s.satOut
  cursor_eq : deck'.cursor + s.board.length = deck.cursor + s'.board.length

/-- The betting figures at the start of a postflop round. -/
structure FreshRound (e : Engine) (s : GameState n) : Prop where
  board_fits : BoardFits s
  currentBet_eq : s.currentBet = 0
  minRaise_eq : s.minRaiseIncrement = e.rules.bigBlind
  cumulative_eq : s.cumulativeShortIncrement = 0

/-- Streets still to come. -/
def GameState.streetsLeft (s : GameState n) : ℕ := (streetsAfter s.street).length

theorem Later.refl (s : GameState n) (deck : Deck) : Later s deck s deck :=
  ⟨rfl, rfl, rfl, rfl, rfl, rfl⟩

theorem Later.trans {s₁ s₂ s₃ : GameState n} {deck₁ deck₂ deck₃ : Deck}
    (h : Later s₁ deck₁ s₂ deck₂) (h' : Later s₂ deck₂ s₃ deck₃) : Later s₁ deck₁ s₃ deck₃ where
  players_eq := h'.players_eq.trans h.players_eq
  pot_eq := h'.pot_eq.trans h.pot_eq
  handId_eq := h'.handId_eq.trans h.handId_eq
  dealer_eq := h'.dealer_eq.trans h.dealer_eq
  satOut_eq := h'.satOut_eq.trans h.satOut_eq
  cursor_eq := by
    have := h.cursor_eq
    have := h'.cursor_eq
    omega

theorem dealMany_cursor {deck deck' : Deck} {count : ℕ} {cards : List Card}
    (h : deck.dealMany count = some (cards, deck')) :
    deck'.cursor = deck.cursor + count := by
  induction count generalizing deck cards with
  | zero =>
    obtain ⟨-, rfl⟩ : [] = cards ∧ deck = deck' := by simpa [Deck.dealMany] using h
    rfl
  | succ count ih =>
    simp only [Deck.dealMany, Option.bind_eq_bind, Option.bind_eq_some_iff, Option.some.injEq,
      Prod.mk.injEq, Prod.exists] at h
    obtain ⟨_, deck₁, hdeal, _, _, hrest, -, rfl⟩ := h
    obtain ⟨-, -, rfl⟩ := Deck.deal_eq_some_iff.mp hdeal
    rw [ih hrest]
    dsimp only
    omega

/-- Beginning a street without outstanding bets only deals its cards. -/
theorem later_beginStreet {s s' : GameState n} {deck deck' : Deck} {street : Street} {count : ℕ}
    {event : EngineEvent} (hbets : ∀ i, (s.players i).betThisStreet = 0)
    (h : Engine.dealBoardCards (e.beginStreet s street) deck count street =
      some (s', deck', event)) :
    Later s deck s' deck' ∧ s'.board.length = s.board.length + count ∧ s'.street = street ∧
      s'.currentBet = 0 ∧ s'.minRaiseIncrement = e.rules.bigBlind ∧
      s'.cumulativeShortIncrement = 0 := by
  have hplayers : (e.beginStreet s street).players = s.players := by
    funext i
    simp [Engine.beginStreet, ← hbets i]
  simp only [Engine.dealBoardCards, Option.bind_eq_bind, Option.bind_eq_some_iff,
    Option.some.injEq, Prod.mk.injEq, Prod.exists] at h
  obtain ⟨cards, deck₁, hdeal, rfl, rfl, -⟩ := h
  have hlength : ((e.beginStreet s street).extendBoard cards).board.length =
      s.board.length + count := by
    simp [Engine.beginStreet, Deck.dealMany_length hdeal]
  refine ⟨⟨hplayers, rfl, rfl, rfl, rfl, ?_⟩, hlength, rfl, rfl, rfl, rfl⟩
  rw [dealMany_cursor hdeal, hlength]
  omega

/-- Collecting when there are no bets changes nothing. -/
theorem collectStreetBets_eq_self {s : GameState n} (hbets : ∀ i, (s.players i).betThisStreet = 0) :
    collectStreetBets s = s := by
  have hplayers : (fun i => { s.players i with betThisStreet := 0 }) = s.players := by
    funext i
    simp [← hbets i]
  simp [collectStreetBets, hbets, hplayers]

/-- Without further streets the board is complete. -/
theorem board_length_of_nextStreet_eq_none {s : GameState n} (hfits : BoardFits s)
    (h : GameTree.nextStreet s.street = none) : s.board.length = 5 := by
  rw [hfits]
  cases hstreet : s.street <;> simp_all [GameTree.nextStreet, boardSize]

/-- A further street starts afresh, with a board that fits it. -/
theorem freshRound_of_deal {s s' : GameState n} {deck deck' : Deck} {street : Street} {count : ℕ}
    {event : EngineEvent} (hbets : ∀ i, (s.players i).betThisStreet = 0) (hfits : BoardFits s)
    (hnext : GameTree.nextStreet s.street = some (street, count))
    (hdeal : Engine.dealBoardCards (e.beginStreet s street) deck count street =
      some (s', deck', event)) :
    Later s deck s' deck' ∧ FreshRound e s' ∧ s'.streetsLeft < s.streetsLeft ∧
      ∀ i, (s'.players i).betThisStreet = 0 := by
  obtain ⟨rest, hrest⟩ : ∃ rest, streetsAfter s.street = (street, count) :: rest :=
    List.head?_eq_some_iff.mp (by rw [← nextStreet_eq_head?, hnext])
  obtain ⟨hafter, hsize⟩ := streetsAfter_of_cons hrest
  obtain ⟨hlater, hlength, hstreet, hcurrent, hraise, hcumulative⟩ := later_beginStreet hbets hdeal
  refine ⟨hlater, ⟨?_, hcurrent, hraise, hcumulative⟩, ?_, ?_⟩
  · rw [BoardFits, hlength, hfits, hstreet, hsize]
  · simp [GameState.streetsLeft, hrest, hstreet, hafter]
  · intro i
    rw [hlater.players_eq]
    exact hbets i

/-- The street loop ends at the first decision of a later round, or resolves the
showdown. -/
theorem advanceStreets_cases {fuel : ℕ} {s : GameState n} {deck : Deck} {t' : GameTree n}
    (hbets : ∀ i, (s.players i).betThisStreet = 0) (hfits : BoardFits s)
    (h : (GameTree.advanceStreets e fuel s deck).2 = some t') :
    (∃ s' deck' first, Later s deck s' deck' ∧ FreshRound e s' ∧ s'.streetsLeft < s.streetsLeft ∧
        Engine.firstToAct s' = some first ∧
        t' = .atDecision s' deck' first fun _ => false) ∨
      ∃ s' deck' s'' chipDeltas, Later s deck s' deck' ∧
        e.resolveShowdown s' = some (s'', chipDeltas) ∧
        t' = ⟨s'', deck', .terminal chipDeltas⟩ := by
  induction fuel generalizing s deck with
  | zero => simp [GameTree.advanceStreets] at h
  | succ fuel ih =>
    rw [GameTree.advanceStreets] at h
    cases hnext : GameTree.nextStreet s.street with
    | none =>
      right
      have hfive := board_length_of_nextStreet_eq_none hfits hnext
      simp only [hnext, Engine.dealRemainingBoard, hfive, Nat.sub_self, if_true,
        Option.bind_eq_bind, Option.bind_some, Option.bind_eq_some_iff, Option.some.injEq,
        Prod.exists] at h
      obtain ⟨s'', chipDeltas, hresolve, rfl⟩ := h
      exact ⟨{ s with street := .showdown }, deck, s'', chipDeltas, ⟨rfl, rfl, rfl, rfl, rfl, rfl⟩,
        hresolve, rfl⟩
    | some next =>
      obtain ⟨street, count⟩ := next
      simp only [hnext] at h
      cases hdeal : Engine.dealBoardCards (e.beginStreet s street) deck count street with
      | none => simp [hdeal] at h
      | some dealt =>
        obtain ⟨s₁, deck₁, event⟩ := dealt
        obtain ⟨hlater, hfresh₁, hleft, hbets₁⟩ := freshRound_of_deal hbets hfits hnext hdeal
        simp only [hdeal] at h
        cases hfirst : Engine.firstToAct s₁ with
        | some first =>
          left
          simp only [hfirst, Option.some.injEq] at h
          exact ⟨s₁, deck₁, first, hlater, hfresh₁, hleft, hfirst, h.symm⟩
        | none =>
          -- nobody can act, and the loop goes on to the next street
          simp only [hfirst, collectStreetBets_eq_self hbets₁] at h
          rcases ih hbets₁ hfresh₁.board_fits h with
            ⟨s', deck', first, hlater', hfresh, hleft', hfirst', ht'⟩ |
              ⟨s', deck', s'', chipDeltas, hlater', hresolve, ht'⟩
          · exact Or.inl ⟨s', deck', first, hlater.trans hlater', hfresh, hleft'.trans hleft,
              hfirst', ht'⟩
          · exact Or.inr ⟨s', deck', s'', chipDeltas, hlater.trans hlater', hresolve, ht'⟩

/-- With enough cards left the street loop cannot fail before the showdown. -/
theorem advanceStreets_isSome {fuel : ℕ} {s : GameState n} {deck : Deck}
    (hfuel : s.streetsLeft < fuel) (hbets : ∀ i, (s.players i).betThisStreet = 0)
    (hfits : BoardFits s) (hcards : deck.cursor + 5 ≤ 52 + s.board.length)
    (hresolve : ∀ s' deck', Later s deck s' deck' → s'.board.length = 5 →
      ∃ resolved, e.resolveShowdown s' = some resolved) :
    ∃ t', (GameTree.advanceStreets e fuel s deck).2 = some t' := by
  induction fuel generalizing s deck with
  | zero => omega
  | succ fuel ih =>
    rw [GameTree.advanceStreets]
    cases hnext : GameTree.nextStreet s.street with
    | none =>
      have hfive := board_length_of_nextStreet_eq_none hfits hnext
      obtain ⟨resolved, hresolved⟩ := hresolve { s with street := .showdown } deck
        ⟨rfl, rfl, rfl, rfl, rfl, rfl⟩ hfive
      simp [Engine.dealRemainingBoard, hfive, hresolved]
    | some next =>
      obtain ⟨street, count⟩ := next
      obtain ⟨rest, hrest⟩ : ∃ rest, streetsAfter s.street = (street, count) :: rest :=
        List.head?_eq_some_iff.mp (by rw [← nextStreet_eq_head?, hnext])
      obtain ⟨hafter, hsize⟩ := streetsAfter_of_cons hrest
      have hsize' := boardSize_le street
      have hfits' := hfits
      rw [BoardFits] at hfits'
      have hle : deck.cursor + count ≤ 52 := by omega
      obtain ⟨cards, hcards', -⟩ := Deck.dealMany_of_le hle
      simp only
      cases hdeal : Engine.dealBoardCards (e.beginStreet s street) deck count street with
      | none => simp [Engine.dealBoardCards, hcards'] at hdeal
      | some dealt =>
        obtain ⟨s₁, deck₁, event⟩ := dealt
        obtain ⟨hlater, hfresh₁, hleft, hbets₁⟩ := freshRound_of_deal hbets hfits hnext hdeal
        have hcursor := hlater.cursor_eq
        dsimp only
        cases hfirst : Engine.firstToAct s₁ with
        | some first => exact ⟨_, rfl⟩
        | none =>
          rw [collectStreetBets_eq_self hbets₁]
          exact ih (by omega) hbets₁ hfresh₁.board_fits (by omega) fun s' deck' h =>
            hresolve s' deck' (hlater.trans h)

/-! ## One step -/

/-- What follows a state `s` in which a seat has just acted. -/
inductive Follows (e : Engine) (s : GameState n) (hasResponded : Fin n → Bool) (deck : Deck) :
    GameTree n → Prop
  | uncontested (winner : Fin n) (hone : s.playersStillIn = 1)
      (hwinner : s.firstStillIn = some winner) :
      Follows e s hasResponded deck (.uncontested s deck winner)
  | next (seat : Fin n) (hmany : s.playersStillIn ≠ 1) (hopen : s.unsettled hasResponded seat) :
      Follows e s hasResponded deck (.atDecision s deck seat hasResponded)
  | street (s' : GameState n) (deck' : Deck) (first : Fin n) (hmany : s.playersStillIn ≠ 1)
      (hdone : ∀ i, s.unsettled hasResponded i = false)
      (hlater : Later (collectStreetBets s) deck s' deck') (hfresh : FreshRound e s')
      (hleft : s'.streetsLeft < s.streetsLeft) (hfirst : Engine.firstToAct s' = some first) :
      Follows e s hasResponded deck (.atDecision s' deck' first fun _ => false)
  | showdown (s' s'' : GameState n) (deck' : Deck) (chipDeltas : Fin n → ℤ)
      (hmany : s.playersStillIn ≠ 1) (hdone : ∀ i, s.unsettled hasResponded i = false)
      (hlater : Later (collectStreetBets s) deck s' deck')
      (hresolve : e.resolveShowdown s' = some (s'', chipDeltas)) :
      Follows e s hasResponded deck ⟨s'', deck', .terminal chipDeltas⟩

/-- The decision that follows, if one does: another one of the round, or the first of a later
street. -/
inductive NextDecision (e : Engine) (s : GameState n) (hasResponded : Fin n → Bool) (deck : Deck) :
    Decision n → Prop
  | next (seat : Fin n) (hmany : s.playersStillIn ≠ 1) (hopen : s.unsettled hasResponded seat) :
      NextDecision e s hasResponded deck ⟨s.setActionOn (some seat), hasResponded, seat⟩
  | street (s' : GameState n) (deck' : Deck) (first : Fin n) (hmany : s.playersStillIn ≠ 1)
      (hdone : ∀ i, s.unsettled hasResponded i = false)
      (hlater : Later (collectStreetBets s) deck s' deck') (hfresh : FreshRound e s')
      (hleft : s'.streetsLeft < s.streetsLeft) (hfirst : Engine.firstToAct s' = some first) :
      NextDecision e s hasResponded deck ⟨s'.setActionOn (some first), fun _ => false, first⟩

theorem Follows.nextDecision {s : GameState n} {hasResponded : Fin n → Bool} {deck : Deck}
    {t : GameTree n} {d : Decision n} (h : Follows e s hasResponded deck t)
    (hd : t.decision? = some d) : NextDecision e s hasResponded deck d := by
  cases h with
  | uncontested => simp at hd
  | showdown => simp at hd
  | next seat hmany hopen =>
    rw [GameTree.atDecision_decision?, Option.some.injEq] at hd
    subst hd
    exact .next seat hmany hopen
  | street s' deck' first hmany hdone hlater hfresh hleft hfirst =>
    rw [GameTree.atDecision_decision?, Option.some.injEq] at hd
    subst hd
    exact .street s' deck' first hmany hdone hlater hfresh hleft hfirst

/-- A tree steps to what follows the state after the answer. -/
theorem follows_of_applyAction {t t' : GameTree n} {d : Decision n} {action : Action}
    (hd : t.decision? = some d) (hfits : BoardFits (d.acted action))
    (h : (t.applyAction e action).2 = some t') :
    Follows e (d.acted action) (d.respondedAfter action) t.deck t' := by
  rcases GameTree.applyAction_cases hd h with
    ⟨hone, winner, hwinner, rfl⟩ | ⟨hmany, next, hopen, rfl⟩ | ⟨hmany, hdone, hstreets⟩
  · exact .uncontested winner hone hwinner
  · exact .next next hmany hopen
  · have hbase : Later (collectStreetBets (d.acted action)) t.deck
        ((collectStreetBets (d.acted action)).setActionOn none) t.deck :=
      ⟨rfl, rfl, rfl, rfl, rfl, rfl⟩
    rcases advanceStreets_cases (s := (collectStreetBets (d.acted action)).setActionOn none)
        (fun _ => rfl) hfits hstreets with
      ⟨s', deck', first, hlater, hfresh, hleft, hfirst, rfl⟩ |
        ⟨s', deck', s'', chipDeltas, hlater, hresolve, rfl⟩
    · exact .street s' deck' first hmany hdone (hbase.trans hlater) hfresh hleft hfirst
    · exact .showdown s' s'' deck' chipDeltas hmany hdone (hbase.trans hlater) hresolve

theorem boardFits_acted {d : Decision n} (h : BoardFits d.state) (action : Action) :
    BoardFits (d.acted action) := by
  rw [BoardFits, Decision.acted, performAction_board, performAction_street]
  exact h

/-- A showdown needs a complete board; it changes the stacks by the awards and
nothing else. -/
theorem resolveShowdown_eq_some {s s' : GameState n} {chipDeltas : Fin n → ℤ}
    (h : e.resolveShowdown s = some (s', chipDeltas)) :
    s.board.length = 5 ∧ e.awardPots s (buildShowdownPots s.players) = some chipDeltas ∧
      s' = { s with
        players := fun i =>
          { s.players i with stack := ((s.players i).stack + chipDeltas i).toNat } } := by
  rw [Engine.resolveShowdown] at h
  split at h
  case isFalse => simp at h
  case isTrue hboard =>
    simp only [Option.bind_eq_bind, Option.bind_eq_some_iff, Option.some.injEq,
      Prod.mk.injEq] at h
    obtain ⟨_, hawards, rfl, rfl⟩ := h
    exact ⟨hboard, hawards, rfl⟩

theorem handId_acted {d : Decision n} (action : Action) :
    (d.acted action).handId = d.state.handId := by
  rw [Decision.acted]
  cases Engine.normalizeAction d.state d.seat action <;>
    simp only [Engine.performAction, GameState.setPlayer]
  case allIn => split_ifs <;> rfl

/-- The hand keeps its number. -/
theorem handId_of_follows {s : GameState n} {hasResponded : Fin n → Bool} {deck : Deck}
    {t' : GameTree n} (h : Follows e s hasResponded deck t') : t'.state.handId = s.handId := by
  cases h with
  | uncontested => rfl
  | next => rfl
  | street s' deck' first hmany hdone hlater => exact hlater.handId_eq
  | showdown s' s'' deck' chipDeltas hmany hdone hlater hresolve =>
    obtain ⟨-, -, rfl⟩ := resolveShowdown_eq_some hresolve
    exact hlater.handId_eq

end VibePoker.Game
