import VibePoker.Game.Hand

/-!
# The forced bets

What the setup of a hand does to each seat: antes and blinds are posted by the
seats that hold chips, each seat still in gets two cards, and the dead hands are
folded. Nothing else about the table changes.

## Main definitions

* `forcedBets` — each seat's state after antes and blinds
* `Opened` — the states in which the preflop betting may start

## Main results

* `opened_of_setupHand` — a setup that does not panic leaves an opened state
-/

namespace VibePoker.Game

open VibePoker.Core VibePoker.Math

variable {n : ℕ} {e : Engine}

/-! ## Posting chips -/

namespace PlayerState

variable {p : PlayerState}

theorem put_stack (p : PlayerState) (amount : ℕ) : (p.put amount).stack = p.stack - amount := by
  simp only [put]
  omega

theorem put_bet (p : PlayerState) (amount : ℕ) :
    (p.put amount).betThisStreet = p.betThisStreet + min amount p.stack := rfl

theorem put_committed (p : PlayerState) (amount : ℕ) :
    (p.put amount).totalCommitted = p.totalCommitted + min amount p.stack := rfl

@[simp] theorem put_status (p : PlayerState) (amount : ℕ) : (p.put amount).status = p.status := rfl

@[simp] theorem put_holeCards (p : PlayerState) (amount : ℕ) :
    (p.put amount).holeCards = p.holeCards := rfl

@[simp] theorem put_zero (p : PlayerState) : p.put 0 = p := by simp [put]

@[simp] theorem putAllIn_stack (p : PlayerState) (amount : ℕ) :
    (p.putAllIn amount).stack = (p.put amount).stack := by
  simp only [putAllIn]
  split <;> rfl

@[simp] theorem putAllIn_bet (p : PlayerState) (amount : ℕ) :
    (p.putAllIn amount).betThisStreet = (p.put amount).betThisStreet := by
  simp only [putAllIn]
  split <;> rfl

@[simp] theorem putAllIn_committed (p : PlayerState) (amount : ℕ) :
    (p.putAllIn amount).totalCommitted = (p.put amount).totalCommitted := by
  simp only [putAllIn]
  split <;> rfl

@[simp] theorem putAllIn_holeCards (p : PlayerState) (amount : ℕ) :
    (p.putAllIn amount).holeCards = p.holeCards := by
  simp only [putAllIn]
  split <;> rfl

theorem putAllIn_status (p : PlayerState) (amount : ℕ) :
    (p.putAllIn amount).status = if p.stack ≤ amount then .allIn else p.status := by
  have := p.put_stack amount
  simp only [putAllIn]
  split <;> split <;> first | rfl | omega

/-- Posting chips does not take a seat out of the hand. -/
theorem putAllIn_stillIn (h : p.stillIn) (amount : ℕ) : (p.putAllIn amount).stillIn := by
  simp only [stillIn, putAllIn_status]
  split
  · simp
  · exact h

end PlayerState

/-! ## Searching for the blinds -/

theorem nextActiveAfterInList_congr {players players' : Fin n → PlayerState}
    (h : ∀ i, (players i).stillIn = (players' i).stillIn) (start : ℕ) :
    nextActiveAfterInList start players = nextActiveAfterInList start players' := by
  simp only [nextActiveAfterInList, h]

/-- The blind seats depend only on the dealer and on who is still in. -/
theorem sbSeat_congr {s t : GameState n} (hdealer : s.dealer = t.dealer)
    (h : ∀ i, (s.players i).stillIn = (t.players i).stillIn) : sbSeat s = sbSeat t := by
  simp only [sbSeat, hdealer, nextActiveAfterInList_congr h]

theorem bbSeat_congr {s t : GameState n} (hdealer : s.dealer = t.dealer)
    (h : ∀ i, (s.players i).stillIn = (t.players i).stillIn) : bbSeat s = bbSeat t := by
  simp only [bbSeat, sbSeat_congr hdealer h, nextActiveAfterInList_congr h]

/-! ## Antes and blinds -/

/-- A seat before the hand. -/
def freshPlayer (stack : ℕ) : PlayerState :=
  { stack := stack
    holeCards := none
    betThisStreet := 0
    totalCommitted := 0
    status := if stack > 0 then .active else .out }

theorem initState_players (handId : ℕ) (startingStacks : List ℕ) (dealer : ℕ)
    (i : Fin startingStacks.length) :
    (e.initState handId startingStacks dealer).players i = freshPlayer (startingStacks.get i) :=
  rfl

@[simp] theorem freshPlayer_stillIn (stack : ℕ) :
    (freshPlayer stack).stillIn = decide (0 < stack) := by
  by_cases h : 0 < stack <;> simp [freshPlayer, PlayerState.stillIn, h]

/-- A seat after its ante. -/
theorem postAnte_freshPlayer (stack : ℕ) :
    e.postAnte (freshPlayer stack) =
      if 0 < stack then (freshPlayer stack).putAllIn e.rules.ante else freshPlayer stack := by
  by_cases h : 0 < stack <;> simp [Engine.postAnte, freshPlayer, h]

/-- A seat after the antes and the blinds, when `sb` and `bb` post the blinds. -/
def forcedBets (e : Engine) (stack : ℕ) (isSb isBb : Bool) : PlayerState :=
  let p := e.postAnte (freshPlayer stack)
  let p := if isSb then p.putAllIn e.rules.smallBlind else p
  if isBb then p.putAllIn e.rules.bigBlind else p

@[simp] theorem postAnte_freshPlayer_stillIn (stack : ℕ) :
    (e.postAnte (freshPlayer stack)).stillIn = decide (0 < stack) := by
  rw [postAnte_freshPlayer]
  by_cases h : 0 < stack
  · simpa [h] using PlayerState.putAllIn_stillIn (by simpa using h) _
  · simp [h]

/-- Without antes nothing is posted, which is what posting an ante of zero does. -/
theorem antesPosted_players (handId : ℕ) (startingStacks : List ℕ) (dealer : ℕ)
    (i : Fin startingStacks.length) :
    (antesPosted e (e.initState handId startingStacks dealer)).1.players i =
      e.postAnte (freshPlayer (startingStacks.get i)) := by
  unfold antesPosted
  split
  case isTrue => rfl
  case isFalse h =>
    have hante : e.rules.ante = 0 := by omega
    rw [initState_players, postAnte_freshPlayer]
    split
    case isTrue hpos =>
      have hstack : (freshPlayer (startingStacks.get i)).stack ≠ 0 := hpos.ne'
      rw [hante, PlayerState.putAllIn, PlayerState.put_zero, if_neg hstack]
    case isFalse => rfl

theorem setPlayer_players (s : GameState n) (seat : Fin n) (p : PlayerState) (i : Fin n) :
    (s.setPlayer seat p).players i = if i = seat then p else s.players i := by
  simp [GameState.setPlayer, Function.update_apply]

/-- What posting the blinds does to each seat and to the table. -/
theorem postBlinds_eq {s : GameState n} (hsb : sbSeat s < n) (hbb : bbSeat s < n) :
    ∃ s' events, e.postBlinds s = some (s', events) ∧
      s' = { s with
        players := s'.players
        currentBet := e.rules.bigBlind
        minRaiseIncrement := e.rules.bigBlind } ∧
      ∀ i : Fin n, s'.players i =
        let p := if i = sbSeat s then (s.players i).putAllIn e.rules.smallBlind else s.players i
        if i = bbSeat s then p.putAllIn e.rules.bigBlind else p := by
  refine ⟨_, _, by rw [Engine.postBlinds, dif_pos ⟨hsb, hbb⟩], rfl, fun i => ?_⟩
  simp only [Engine.post, setPlayer_players, Fin.ext_iff]
  by_cases hi : (i : ℕ) = bbSeat s
  · have : i = ⟨bbSeat s, hbb⟩ := Fin.ext hi
    subst this
    by_cases hsame : bbSeat s = sbSeat s
    · simp [hsame]
    · simp [hsame]
  · by_cases hsame : (i : ℕ) = sbSeat s
    · have : i = ⟨sbSeat s, hsb⟩ := Fin.ext hsame
      subst this
      simp [hi]
    · simp [hi, hsame]

/-! ## Hole cards -/

/-- Give each seat its hole cards. -/
def GameState.setHoleCards (s : GameState n) (holeCards : Fin n → Option (Card × Card)) :
    GameState n :=
  { s with players := fun i => { s.players i with holeCards := holeCards i } }

/-- Number of cards dealt to the listed seats. -/
def cardsDealt (seats : List (Fin n)) (s : GameState n) : ℕ :=
  2 * (seats.filter fun i => (s.players i).stillIn).length

theorem cardsDealt_cons_of_stillIn {i : Fin n} {s : GameState n} (h : (s.players i).stillIn)
    (seats : List (Fin n)) : cardsDealt (i :: seats) s = cardsDealt seats s + 2 := by
  simp [cardsDealt, h]
  omega

theorem cardsDealt_cons_of_out {i : Fin n} {s : GameState n} (h : ¬ (s.players i).stillIn)
    (seats : List (Fin n)) : cardsDealt (i :: seats) s = cardsDealt seats s := by
  simp [cardsDealt, h]

theorem cardsDealt_congr {s s' : GameState n}
    (h : ∀ i, (s.players i).stillIn = (s'.players i).stillIn) (seats : List (Fin n)) :
    cardsDealt seats s = cardsDealt seats s' := by
  simp only [cardsDealt, h]

theorem setPlayer_holeCards_stillIn (s : GameState n) (i : Fin n) (hole : Option (Card × Card))
    (j : Fin n) :
    ((s.setPlayer i { s.players i with holeCards := hole }).players j).stillIn =
      (s.players j).stillIn := by
  rw [setPlayer_players]
  split
  case isTrue h => rw [h]; rfl
  case isFalse => rfl

theorem setPlayer_setHoleCards (s : GameState n) (i : Fin n) (hole : Option (Card × Card))
    (holeCards : Fin n → Option (Card × Card)) :
    (s.setPlayer i { s.players i with holeCards := hole }).setHoleCards holeCards =
      s.setHoleCards holeCards := by
  simp only [GameState.setHoleCards, setPlayer_players]
  congr 1
  funext j
  by_cases h : j = i
  · simp [h]
  · simp [h]

/-- The first of the listed seats is dealt two cards if it is still in, and the others after it. -/
theorem dealHoleCards_cons {i : Fin n} {seats : List (Fin n)} {s s' : GameState n}
    {deck deck' : Deck} {events : List EngineEvent}
    (h : Engine.dealHoleCards (i :: seats) s deck = some (s', deck', events)) :
    (∃ first deck₁ second deck₂ later, (s.players i).stillIn ∧ deck.deal = some (first, deck₁) ∧
        deck₁.deal = some (second, deck₂) ∧
        Engine.dealHoleCards seats
          (s.setPlayer i { s.players i with holeCards := some (first, second) }) deck₂ =
            some (s', deck', later) ∧
        events = .holeCardsDealt i (first, second) :: later) ∨
      (¬ (s.players i).stillIn ∧
        Engine.dealHoleCards seats s deck = some (s', deck', events)) := by
  rw [Engine.dealHoleCards] at h
  split at h
  case isTrue hin =>
    simp only [Option.bind_eq_bind, Option.bind_eq_some_iff, Option.some.injEq, Prod.mk.injEq,
      Prod.exists] at h
    obtain ⟨first, deck₁, hfirst, second, deck₂, hsecond, _, _, later, hrest, rfl, rfl, rfl⟩ := h
    exact Or.inl ⟨first, deck₁, second, deck₂, later, hin, hfirst, hsecond, hrest, rfl⟩
  case isFalse hout => exact Or.inr ⟨hout, h⟩

/-- Two cards in a row. -/
theorem deal_twice {deck : Deck} (h : deck.cursor + 2 ≤ 52) :
    deck.deal = some (deck.cards ⟨deck.cursor, by omega⟩,
        { deck with cursor := deck.cursor + 1 }) ∧
      Deck.deal { deck with cursor := deck.cursor + 1 } =
        some (deck.cards ⟨deck.cursor + 1, by omega⟩,
          { deck with cursor := deck.cursor + 1 + 1 }) := by
  refine ⟨Deck.deal_eq_some_iff.mpr ⟨by omega, rfl, rfl⟩, Deck.deal_eq_some_iff.mpr ⟨?_, rfl, rfl⟩⟩
  simpa using by omega

/-- Dealing gives each listed seat still in two cards, as long as the deck
holds enough. -/
theorem dealHoleCards_of_le {seats : List (Fin n)} (hnodup : seats.Nodup) {s : GameState n}
    {deck : Deck} (hle : deck.cursor + cardsDealt seats s ≤ 52) :
    ∃ holeCards events, Engine.dealHoleCards seats s deck =
        some (s.setHoleCards holeCards,
          { deck with cursor := deck.cursor + cardsDealt seats s }, events) ∧
      (∀ i ∈ seats, (s.players i).stillIn → holeCards i ≠ none) ∧
      ∀ i, i ∉ seats → holeCards i = (s.players i).holeCards := by
  induction seats generalizing s deck with
  | nil => exact ⟨fun i => (s.players i).holeCards, [], rfl, by simp, fun _ _ => rfl⟩
  | cons i seats ih =>
    obtain ⟨hi, hnodup⟩ := List.nodup_cons.mp hnodup
    by_cases hin : (s.players i).stillIn
    · rw [cardsDealt_cons_of_stillIn hin] at hle ⊢
      -- a seat still in takes the next two cards of the deck
      obtain ⟨hfirst, hsecond⟩ := @deal_twice deck (by omega)
      obtain ⟨hole, hhole⟩ : ∃ hole : Card × Card, hole =
        (deck.cards ⟨deck.cursor, by omega⟩, deck.cards ⟨deck.cursor + 1, by omega⟩) := ⟨_, rfl⟩
      have hcards := cardsDealt_congr (setPlayer_holeCards_stillIn s i (some hole)) seats
      have hrestle : (⟨deck.cards, deck.cursor + 1 + 1⟩ : Deck).cursor +
          cardsDealt seats (s.setPlayer i { s.players i with holeCards := some hole }) ≤ 52 := by
        rw [hcards]
        simpa using by omega
      obtain ⟨holeCards, events, hrest, hgiven, hkept⟩ := ih hnodup hrestle
      refine ⟨holeCards, .holeCardsDealt i hole :: events, ?_, ?_, ?_⟩
      · rw [Engine.dealHoleCards, if_pos hin]
        simp only [hfirst, hsecond, Option.bind_eq_bind, Option.bind_some]
        rw [← hhole, hrest, hcards]
        simp only [Option.bind_some, Option.some.injEq, Prod.mk.injEq, and_true]
        exact ⟨setPlayer_setHoleCards s i (some hole) holeCards, by simp; omega⟩
      · intro j hj hjin
        by_cases hmem : j ∈ seats
        · exact hgiven j hmem (by rwa [setPlayer_holeCards_stillIn])
        · obtain rfl : j = i := (List.mem_cons.mp hj).resolve_right hmem
          simp [hkept j hmem, setPlayer_players]
      · intro j hj
        have hne : j ≠ i := fun h => hj (h ▸ List.mem_cons_self)
        rw [hkept j fun hmem => hj (List.mem_cons_of_mem _ hmem), setPlayer_players, if_neg hne]
    · rw [cardsDealt_cons_of_out hin] at hle ⊢
      obtain ⟨holeCards, events, hrest, hgiven, hkept⟩ := ih hnodup hle
      refine ⟨holeCards, events, by rw [Engine.dealHoleCards, if_neg hin, hrest], ?_, ?_⟩
      · intro j hj
        rcases List.mem_cons.mp hj with rfl | hj
        · exact fun h => absurd h hin
        · exact hgiven j hj
      · exact fun j hj => hkept j fun hmem => hj (List.mem_cons_of_mem _ hmem)

/-- Dealing panics when the deck holds too few cards. -/
theorem dealHoleCards_eq_none {seats : List (Fin n)} {s : GameState n} {deck : Deck}
    (hlt : 52 < deck.cursor + cardsDealt seats s) (hcursor : deck.cursor ≤ 52) :
    Engine.dealHoleCards seats s deck = none := by
  induction seats generalizing s deck with
  | nil => simp only [cardsDealt, List.filter_nil, List.length_nil] at hlt; omega
  | cons i seats ih =>
    by_cases hin : (s.players i).stillIn
    · rw [cardsDealt_cons_of_stillIn hin] at hlt
      rw [Engine.dealHoleCards, if_pos hin]
      by_cases htwo : deck.cursor + 2 ≤ 52
      · obtain ⟨hfirst, hsecond⟩ := deal_twice htwo
        simp only [hfirst, hsecond, Option.bind_eq_bind, Option.bind_some]
        rw [ih, Option.bind_none]
        · rw [cardsDealt_congr (setPlayer_holeCards_stillIn s i _)]
          simpa using by omega
        · simpa using by omega
      · cases hfirst : deck.deal with
        | none => rfl
        | some first =>
          obtain ⟨hlt', -, hdeck⟩ := Deck.deal_eq_some_iff.mp hfirst
          have hsecond : first.2.deal = none := by
            rw [hdeck, Deck.deal, dif_neg (by simpa using by omega)]
          simp [hsecond]
    · rw [cardsDealt_cons_of_out hin] at hlt
      rw [Engine.dealHoleCards, if_neg hin]
      exact ih hlt hcursor

/-- What was dealt was in the deck: each listed seat still in has two cards, and the deck is
behind them. -/
theorem dealHoleCards_eq_some {seats : List (Fin n)} (hnodup : seats.Nodup) {s s' : GameState n}
    {deck deck' : Deck} {events : List EngineEvent} (hdeck : deck.cursor ≤ 52)
    (h : Engine.dealHoleCards seats s deck = some (s', deck', events)) :
    deck.cursor + cardsDealt seats s ≤ 52 ∧
      deck' = { deck with cursor := deck.cursor + cardsDealt seats s } ∧
      ∃ holeCards, s' = s.setHoleCards holeCards ∧
        ∀ i ∈ seats, (s.players i).stillIn → holeCards i ≠ none := by
  have hle : deck.cursor + cardsDealt seats s ≤ 52 := by
    by_contra hlt
    rw [dealHoleCards_eq_none (by omega) hdeck] at h
    cases h
  obtain ⟨holeCards, events', hdeal, hgiven, -⟩ := dealHoleCards_of_le hnodup hle
  rw [hdeal] at h
  cases h
  exact ⟨hle, rfl, holeCards, rfl, hgiven⟩

theorem holeCardEvents_eq {seats : List (Fin n)} {s s' : GameState n} {deck deck' : Deck}
    {events : List EngineEvent}
    (h : Engine.dealHoleCards seats s deck = some (s', deck', events)) :
    Engine.holeCardEvents seats s deck = events := by
  induction seats generalizing s deck events with
  | nil =>
    simp only [Engine.dealHoleCards, Option.some.injEq, Prod.mk.injEq] at h
    exact h.2.2
  | cons i seats ih =>
    rcases dealHoleCards_cons h with
      ⟨first, deck₁, second, deck₂, later, hin, hfirst, hsecond, hrest, rfl⟩ | ⟨hout, hrest⟩
    · simp only [Engine.holeCardEvents, if_pos hin, hfirst, hsecond, ih hrest]
    · rw [Engine.holeCardEvents, if_neg hout, ih hrest]

/-- Before the deck runs out, it has dealt to the first of the listed seats. -/
theorem exists_dealHoleCards (seats : List (Fin n)) (s : GameState n) (deck : Deck) :
    ∃ before after s' deck', seats = before ++ after ∧
      Engine.dealHoleCards before s deck =
        some (s', deck', Engine.holeCardEvents seats s deck) := by
  induction seats generalizing s deck with
  | nil => exact ⟨[], [], s, deck, rfl, rfl⟩
  | cons i seats ih =>
    rw [Engine.holeCardEvents]
    split
    case isTrue hin =>
      split
      · exact ⟨[], i :: seats, s, deck, rfl, rfl⟩
      · rename_i first deck₁ hfirst
        split
        · exact ⟨[], i :: seats, s, deck, rfl, rfl⟩
        · rename_i second deck₂ hsecond
          obtain ⟨before, after, s', deck', rfl, hdeal⟩ :=
            ih (s.setPlayer i { s.players i with holeCards := some (first, second) }) deck₂
          refine ⟨i :: before, after, s', deck', rfl, ?_⟩
          simp only [Engine.dealHoleCards, if_pos hin, hfirst, hsecond, Option.bind_eq_bind,
            Option.bind_some, hdeal]
    case isFalse hout =>
      obtain ⟨before, after, s', deck', rfl, hdeal⟩ := ih s deck
      exact ⟨i :: before, after, s', deck', rfl, by rw [Engine.dealHoleCards, if_neg hout, hdeal]⟩

/-! ## Dead hands -/

/-- The seat is designated as a dead hand. -/
def deadHand (seatKinds : Option (List SeatKind)) (seat : ℕ) : Bool :=
  match seatKinds with
  | none => false
  | some kinds => Engine.isDeadHand kinds seat

/-- A seat's status after the dead hands are folded. -/
def statusAfterFold (dead : Bool) (status : PlayerStatus) : PlayerStatus :=
  if dead && status ≠ .out then .folded else status

/-- The designation of dead hands stays within the table. -/
def KindsFit (seatKinds : Option (List SeatKind)) (n : ℕ) : Prop :=
  ∀ seat, n ≤ seat → deadHand seatKinds seat = false

theorem foldDeadHands_eq_some {seatKinds : Option (List SeatKind)} {s s' : GameState n}
    (h : Engine.foldDeadHands seatKinds s = some s') :
    s' = { s with players := s'.players, satOut := s'.satOut } ∧
      ∀ i, s'.players i = { s.players i with
        status := statusAfterFold (deadHand seatKinds i) (s.players i).status } := by
  cases seatKinds with
  | none =>
    obtain rfl := Option.some.inj h
    exact ⟨rfl, fun i => rfl⟩
  | some kinds =>
    simp only [Engine.foldDeadHands] at h
    split at h
    case isTrue => simp at h
    case isFalse =>
      obtain rfl := Option.some.inj h
      refine ⟨rfl, fun i => ?_⟩
      dsimp only [deadHand]
      split
      case isTrue hdead =>
        have hfolded : statusAfterFold (Engine.isDeadHand kinds i) (s.players i).status = .folded :=
          if_pos hdead
        rw [hfolded]
      case isFalse hdead =>
        have hkept : statusAfterFold (Engine.isDeadHand kinds i) (s.players i).status =
            (s.players i).status := if_neg hdead
        rw [hkept]

theorem foldDeadHands_eq_none_iff {seatKinds : Option (List SeatKind)} {s : GameState n} :
    Engine.foldDeadHands seatKinds s = none ↔ ¬ KindsFit seatKinds n := by
  cases seatKinds with
  | none => simp [Engine.foldDeadHands, KindsFit, deadHand]
  | some kinds =>
    have hrange : (∃ seat ∈ List.range kinds.length, n ≤ seat ∧ Engine.isDeadHand kinds seat) ↔
        ¬ KindsFit (some kinds) n := by
      simp only [KindsFit, deadHand, not_forall, Bool.not_eq_false, List.mem_range]
      constructor
      · rintro ⟨seat, -, hle, hdead⟩
        exact ⟨seat, hle, hdead⟩
      · rintro ⟨seat, hle, hdead⟩
        refine ⟨seat, ?_, hle, hdead⟩
        by_contra hlen
        simp [Engine.isDeadHand, List.getElem?_eq_none (by omega : kinds.length ≤ seat)] at hdead
    rw [← hrange, Engine.foldDeadHands]
    split <;> simp_all

/-! ## The blind seats -/

theorem nextActiveAfterInList_stillIn {start : ℕ} {players : Fin n → PlayerState} {seat : Fin n}
    (h : nextActiveAfterInList start players = some seat) : (players seat).stillIn := by
  simpa using List.find?_some h

theorem nextActiveAfterInList_isSome {players : Fin n → PlayerState} {seat : Fin n}
    (h : (players seat).stillIn) (start : ℕ) :
    ∃ found, nextActiveAfterInList start players = some found ∧ (players found).stillIn :=
  find?_ringAfter_isSome start h

/-- While somebody is in, the blinds are seats that are in. -/
theorem sbSeat_stillIn {s : GameState n} {seat : Fin n} (h : (s.players seat).stillIn) :
    ∃ sb : Fin n, sbSeat s = sb ∧ (s.players sb).stillIn := by
  obtain ⟨sb, hfound, hin⟩ := nextActiveAfterInList_isSome h s.dealer
  exact ⟨sb, by simp [sbSeat, hfound], hin⟩

theorem bbSeat_stillIn {s : GameState n} {seat : Fin n} (h : (s.players seat).stillIn) :
    ∃ bb : Fin n, bbSeat s = bb ∧ (s.players bb).stillIn := by
  obtain ⟨bb, hfound, hin⟩ := nextActiveAfterInList_isSome h (sbSeat s)
  exact ⟨bb, by simp [bbSeat, hfound], hin⟩

/-- With two seats in, the blinds are different seats. -/
theorem sbSeat_ne_bbSeat {s : GameState n} {i j : Fin n} (hi : (s.players i).stillIn)
    (hj : (s.players j).stillIn) (hne : i ≠ j) : sbSeat s ≠ bbSeat s := by
  obtain ⟨sb, hsb, -⟩ := sbSeat_stillIn hi
  obtain ⟨bb, hbb, -⟩ := nextActiveAfterInList_isSome hi (sbSeat s)
  have hbb' : bbSeat s = bb := by simp [bbSeat, hbb]
  obtain ⟨other, hother, hin⟩ : ∃ other, other ≠ sb ∧ (s.players other).stillIn := by
    by_cases h : i = sb
    · exact ⟨j, fun h' => hne (h.trans h'.symm), hj⟩
    · exact ⟨i, h, hi⟩
  rw [hsb, nextActiveAfterInList] at hbb
  have := find?_ringAfter_ne hin hother hbb
  rw [hsb, hbb']
  exact fun h => this (Fin.ext h.symm)

/-! ## The whole setup -/

/-- Number of seats that hold chips. -/
def fundedSeats (startingStacks : List ℕ) : ℕ := startingStacks.countP (0 < ·)

theorem fundedSeats_eq_length (startingStacks : List ℕ) :
    fundedSeats startingStacks =
      ((List.finRange startingStacks.length).filter fun i => 0 < startingStacks.get i).length := by
  conv_lhs =>
    rw [fundedSeats, ← List.map_get_finRange startingStacks, List.countP_map,
      List.countP_eq_length_filter]
  rfl

theorem fundedSeats_eq_card (startingStacks : List ℕ) :
    fundedSeats startingStacks =
      (Finset.univ.filter fun i : Fin startingStacks.length => 0 < startingStacks.get i).card := by
  rw [fundedSeats_eq_length]
  simp [Finset.card, Finset.univ, Finset.filter]
  rfl

theorem exists_funded {startingStacks : List ℕ} (h : 0 < fundedSeats startingStacks) :
    ∃ i : Fin startingStacks.length, 0 < startingStacks.get i := by
  rw [fundedSeats_eq_card, Finset.card_pos] at h
  obtain ⟨i, hi⟩ := h
  exact ⟨i, by simpa using hi⟩

section Opening

variable (e) (handId : ℕ) (deck : Deck) (startingStacks : List ℕ) (dealer : ℕ)
  (seatKinds : Option (List SeatKind))

/-- The seat `i` posts the small blind of the hand. -/
def postsSb (i : Fin startingStacks.length) : Bool :=
  (i : ℕ) = sbSeat (e.initState 0 startingStacks dealer)

/-- The seat `i` posts the big blind of the hand. -/
def postsBb (i : Fin startingStacks.length) : Bool :=
  (i : ℕ) = bbSeat (e.initState 0 startingStacks dealer)

/-- A seat after the antes and blinds of a hand. -/
def forcedPlayer (i : Fin startingStacks.length) : PlayerState :=
  forcedBets e (startingStacks.get i) (postsSb e startingStacks dealer i)
    (postsBb e startingStacks dealer i)

/-- What the setup of a hand leaves: the table is as new but for the seats, and
each seat has posted its forced bets, holds cards if it is in, and is folded if
it is a dead hand. -/
structure Opened (s : GameState startingStacks.length) (deck' : Deck) : Prop where
  handId_eq : s.handId = handId
  street_eq : s.street = .preflop
  board_eq : s.board = []
  dealer_eq : s.dealer = dealer
  pot_eq : s.pot = {}
  currentBet_eq : s.currentBet = e.rules.bigBlind
  minRaise_eq : s.minRaiseIncrement = e.rules.bigBlind
  cumulative_eq : s.cumulativeShortIncrement = 0
  players_eq : ∀ i, s.players i =
    { forcedPlayer e startingStacks dealer i with
      holeCards := (s.players i).holeCards
      status := statusAfterFold (deadHand seatKinds i)
        (forcedPlayer e startingStacks dealer i).status }
  holeCards_ne : ∀ i, (s.players i).stillIn → (s.players i).holeCards ≠ none
  cursor_eq : 0 < fundedSeats startingStacks →
    deck'.cursor = deck.cursor + 2 * fundedSeats startingStacks ∧ deck'.cursor ≤ 52

variable {e handId deck startingStacks dealer seatKinds}

/-- The blinds of a table that holds chips are posted by seats with chips. -/
theorem postsSb_funded (hfunded : 0 < fundedSeats startingStacks)
    {i : Fin startingStacks.length} (h : postsSb e startingStacks dealer i) :
    0 < startingStacks.get i := by
  obtain ⟨j, hj⟩ := exists_funded hfunded
  have hj' : ((e.initState 0 startingStacks dealer).players j).stillIn := by
    rw [initState_players, freshPlayer_stillIn]
    simpa using hj
  obtain ⟨sb, hsb, hin⟩ := sbSeat_stillIn hj'
  obtain rfl : i = sb := Fin.ext (by simpa [postsSb, hsb] using h)
  simpa [initState_players] using hin

theorem postsBb_funded (hfunded : 0 < fundedSeats startingStacks)
    {i : Fin startingStacks.length} (h : postsBb e startingStacks dealer i) :
    0 < startingStacks.get i := by
  obtain ⟨j, hj⟩ := exists_funded hfunded
  have hj' : ((e.initState 0 startingStacks dealer).players j).stillIn := by
    rw [initState_players, freshPlayer_stillIn]
    simpa using hj
  obtain ⟨bb, hbb, hin⟩ := bbSeat_stillIn hj'
  obtain rfl : i = bb := Fin.ext (by simpa [postsBb, hbb] using h)
  simpa [initState_players] using hin

theorem forcedBets_stillIn {stack : ℕ} (h : 0 < stack) (isSb isBb : Bool) :
    (forcedBets e stack isSb isBb).stillIn := by
  have hante : (e.postAnte (freshPlayer stack)).stillIn := by simpa using h
  cases isSb <;> cases isBb <;> simp only [forcedBets, if_true, Bool.false_eq_true, if_false] <;>
    first
      | exact hante
      | exact PlayerState.putAllIn_stillIn hante _
      | exact PlayerState.putAllIn_stillIn (PlayerState.putAllIn_stillIn hante _) _

/-- The seats that are in after the forced bets are those that had chips. -/
theorem forcedPlayer_stillIn (hfunded : 0 < fundedSeats startingStacks)
    (i : Fin startingStacks.length) :
    (forcedPlayer e startingStacks dealer i).stillIn = decide (0 < startingStacks.get i) := by
  by_cases hpos : 0 < startingStacks.get i
  · rw [forcedPlayer, forcedBets_stillIn hpos]
    simpa using hpos
  · have hsb : postsSb e startingStacks dealer i = false := by
      by_contra h
      exact hpos (postsSb_funded hfunded (by simpa using h))
    have hbb : postsBb e startingStacks dealer i = false := by
      by_contra h
      exact hpos (postsBb_funded hfunded (by simpa using h))
    simp [forcedPlayer, forcedBets, hsb, hbb]

/-- The forced bets come before the cards. -/
@[simp] theorem forcedPlayer_holeCards (i : Fin startingStacks.length) :
    (forcedPlayer e startingStacks dealer i).holeCards = none := by
  simp only [forcedPlayer, forcedBets, Engine.postAnte, freshPlayer]
  split_ifs <;> simp

/-- The antes do not move the blinds. -/
theorem antesPosted_blinds :
    sbSeat (antesPosted e (e.initState handId startingStacks dealer)).1 =
        sbSeat (e.initState 0 startingStacks dealer) ∧
      bbSeat (antesPosted e (e.initState handId startingStacks dealer)).1 =
        bbSeat (e.initState 0 startingStacks dealer) := by
  have hin : ∀ i, ((antesPosted e (e.initState handId startingStacks dealer)).1.players i).stillIn =
      ((e.initState 0 startingStacks dealer).players i).stillIn := by
    intro i
    rw [antesPosted_players, initState_players]
    simp
  have hdealer : (antesPosted e (e.initState handId startingStacks dealer)).1.dealer =
      (e.initState 0 startingStacks dealer).dealer := by
    rw [antesPosted]
    split <;> rfl
  exact ⟨sbSeat_congr hdealer hin, bbSeat_congr hdealer hin⟩

/-- The blinds posted after the antes leave every seat with its forced bets. -/
theorem postBlinds_forced {s' : GameState startingStacks.length} {events : List EngineEvent}
    (h : e.postBlinds (antesPosted e (e.initState handId startingStacks dealer)).1 =
      some (s', events)) :
    s' = { e.initState handId startingStacks dealer with
        players := forcedPlayer e startingStacks dealer
        currentBet := e.rules.bigBlind } := by
  obtain ⟨hsb, hbb⟩ := @antesPosted_blinds e handId startingStacks dealer
  set antes := (antesPosted e (e.initState handId startingStacks dealer)).1 with hantes
  have hplayers : ∀ i, antes.players i = e.postAnte (freshPlayer (startingStacks.get i)) :=
    antesPosted_players handId startingStacks dealer
  have htable : antes = { e.initState handId startingStacks dealer with
      players := antes.players } := by
    rw [hantes, antesPosted]
    split <;> rfl
  have hrange : sbSeat antes < startingStacks.length ∧ bbSeat antes < startingStacks.length := by
    by_contra hout
    rw [Engine.postBlinds, dif_neg hout] at h
    simp at h
  obtain ⟨s'', events', hpost, hs'', hposted⟩ := postBlinds_eq (e := e) hrange.1 hrange.2
  obtain ⟨rfl, -⟩ : s'' = s' ∧ events' = events := by simpa [hpost] using h
  rw [hs'', htable]
  congr 1
  funext i
  rw [hposted, hplayers, hsb, hbb]
  simp only [forcedPlayer, forcedBets, postsSb, postsBb, decide_eq_true_eq]

/-- While a seat holds chips, the blinds can be posted. -/
theorem postBlinds_isSome (hfunded : 0 < fundedSeats startingStacks) :
    ∃ s' events, e.postBlinds (antesPosted e (e.initState handId startingStacks dealer)).1 =
      some (s', events) := by
  obtain ⟨i, hi⟩ := exists_funded hfunded
  have hin : ((antesPosted e (e.initState handId startingStacks dealer)).1.players i).stillIn := by
    rw [antesPosted_players]
    simpa using hi
  obtain ⟨sb, hsb, -⟩ := sbSeat_stillIn hin
  obtain ⟨bb, hbb, -⟩ := bbSeat_stillIn hin
  obtain ⟨s', events, h, -⟩ := postBlinds_eq (e := e) (hsb ▸ sb.isLt) (hbb ▸ bb.isLt)
  exact ⟨s', events, h⟩

theorem forced_cardsDealt (hfunded : 0 < fundedSeats startingStacks)
    {s : GameState startingStacks.length} (hs : s.players = forcedPlayer e startingStacks dealer) :
    cardsDealt (List.finRange startingStacks.length) s = 2 * fundedSeats startingStacks := by
  simp only [cardsDealt, hs, forcedPlayer_stillIn hfunded, fundedSeats_eq_length]

/-- A setup posts the forced bets, deals the hole cards and folds the dead hands. -/
theorem setupHand_cases {n : ℕ} {s s' : GameState n} {deck' : Deck} {bb : ℕ}
    {events : List EngineEvent} (h : setupHand e deck s seatKinds = some (s', deck', bb, events)) :
    ∃ s₁ blinds s₂ dealt, e.postBlinds (antesPosted e s).1 = some (s₁, blinds) ∧
      Engine.dealHoleCards (List.finRange n) s₁ deck = some (s₂, deck', dealt) ∧
      Engine.foldDeadHands seatKinds s₂ = some s' ∧ bb = bbSeat s₁ ∧
      events = (antesPosted e s).2 ++ blinds ++ dealt := by
  simp only [setupHand, Option.bind_eq_bind, Option.bind_eq_some_iff, Option.some.injEq,
    Prod.mk.injEq, Prod.exists] at h
  obtain ⟨s₁, blinds, hblinds, s₂, deck₂, dealt, hdeal, s₃, hfold, rfl, rfl, rfl, rfl⟩ := h
  exact ⟨s₁, blinds, s₂, dealt, hblinds, hdeal, hfold, rfl, rfl⟩

theorem setupEvents_eq {n : ℕ} {s s' : GameState n} {deck' : Deck} {bb : ℕ}
    {events : List EngineEvent} (h : setupHand e deck s seatKinds = some (s', deck', bb, events)) :
    setupEvents e deck s = events := by
  obtain ⟨s₁, blinds, s₂, dealt, hblinds, hdeal, -, -, rfl⟩ := setupHand_cases h
  simp only [setupEvents, hblinds, holeCardEvents_eq hdeal]

/-- A setup reports the antes, and the blinds with the hole cards of the first seats. -/
theorem setupEvents_cases {n : ℕ} (deck : Deck) (s : GameState n) :
    setupEvents e deck s = (antesPosted e s).2 ∨
      ∃ s₁ blinds before after s₂ deck' dealt,
        e.postBlinds (antesPosted e s).1 = some (s₁, blinds) ∧
          List.finRange n = before ++ after ∧
          Engine.dealHoleCards before s₁ deck = some (s₂, deck', dealt) ∧
          setupEvents e deck s = (antesPosted e s).2 ++ blinds ++ dealt := by
  rw [setupEvents]
  split
  · exact Or.inl rfl
  · rename_i s₁ blinds hblinds
    obtain ⟨before, after, s₂, deck', hseats, hdeal⟩ :=
      exists_dealHoleCards (List.finRange n) s₁ deck
    exact Or.inr ⟨s₁, blinds, before, after, s₂, deck', _, hblinds, hseats, hdeal, rfl⟩

/-- A setup that does not panic leaves an opened state. -/
theorem opened_of_setupHand {s : GameState startingStacks.length} {deck' : Deck} {bb : ℕ}
    {events : List EngineEvent} (hdeck : deck.cursor ≤ 52)
    (h : setupHand e deck (e.initState handId startingStacks dealer) seatKinds =
      some (s, deck', bb, events)) :
    Opened e handId deck startingStacks dealer seatKinds s deck' := by
  obtain ⟨s₁, blinds, s₂, dealt, hblinds, hdeal, hfold, -, -⟩ := setupHand_cases h
  have hs₁ := postBlinds_forced hblinds
  obtain ⟨hle, rfl, hole, rfl, hgiven⟩ :=
    dealHoleCards_eq_some (List.nodup_finRange _) hdeck hdeal
  obtain ⟨hs, hplayers⟩ := foldDeadHands_eq_some hfold
  have hplayers' : ∀ i, s.players i = { forcedPlayer e startingStacks dealer i with
      holeCards := hole i
      status := statusAfterFold (deadHand seatKinds i)
        (forcedPlayer e startingStacks dealer i).status } := by
    intro i
    rw [hplayers, hs₁]
    rfl
  have htable : s = { e.initState handId startingStacks dealer with
      players := s.players
      satOut := s.satOut
      currentBet := e.rules.bigBlind } := by
    conv_lhs => rw [hs, hs₁]
    rfl
  exact {
    handId_eq := by rw [htable]; rfl
    street_eq := by rw [htable]; rfl
    board_eq := by rw [htable]; rfl
    dealer_eq := by rw [htable]; rfl
    pot_eq := by rw [htable]; rfl
    currentBet_eq := by rw [htable]
    minRaise_eq := by rw [htable]; rfl
    cumulative_eq := by rw [htable]; rfl
    players_eq := fun i => by rw [hplayers']
    holeCards_ne := by
      intro i hin
      rw [hplayers'] at hin ⊢
      refine hgiven i (List.mem_finRange i) ?_
      rw [hs₁]
      revert hin
      simp only [PlayerState.stillIn, statusAfterFold]
      split <;> simp
    cursor_eq := by
      intro hfunded
      rw [forced_cardsDealt hfunded (by rw [hs₁])] at hle ⊢
      exact ⟨rfl, hle⟩ }

/-- At a table with chips, the setup goes through exactly when the deck has the
hole cards and the dead hands are seats of the table. -/
theorem setupHand_isSome_iff (hfunded : 0 < fundedSeats startingStacks) (hdeck : deck.cursor ≤ 52) :
    (setupHand e deck (e.initState handId startingStacks dealer) seatKinds).isSome ↔
      deck.cursor + 2 * fundedSeats startingStacks ≤ 52 ∧
        KindsFit seatKinds startingStacks.length := by
  obtain ⟨s₁, blinds, hblinds⟩ : ∃ s₁ blinds, e.postBlinds
      (antesPosted e (e.initState handId startingStacks dealer)).1 = some (s₁, blinds) :=
    postBlinds_isSome hfunded
  have hcards := forced_cardsDealt hfunded (s := s₁) (by rw [postBlinds_forced hblinds])
  have hsetup : setupHand e deck (e.initState handId startingStacks dealer) seatKinds =
      (Engine.dealHoleCards (List.finRange startingStacks.length) s₁ deck).bind fun dealt =>
        (Engine.foldDeadHands seatKinds dealt.1).bind fun s =>
          some (s, dealt.2.1, bbSeat s₁,
            (antesPosted e (e.initState handId startingStacks dealer)).2 ++ blinds ++
              dealt.2.2) := by
    change (e.postBlinds (antesPosted e (e.initState handId startingStacks dealer)).1).bind _ = _
    rw [hblinds]
    rfl
  rw [hsetup, ← hcards]
  -- the deck is asked first, and the seat kinds only when the cards were there
  by_cases hle : deck.cursor + cardsDealt (List.finRange startingStacks.length) s₁ ≤ 52
  · obtain ⟨hole, events, hdeal, -⟩ := dealHoleCards_of_le (List.nodup_finRange _) hle
    rw [hdeal]
    cases hfold : Engine.foldDeadHands seatKinds (s₁.setHoleCards hole) with
    | none =>
      have := foldDeadHands_eq_none_iff.mp hfold
      simp [hfold, this]
    | some s =>
      have : KindsFit seatKinds startingStacks.length := by
        by_contra hnot
        rw [foldDeadHands_eq_none_iff.mpr hnot] at hfold
        simp at hfold
      simp [hfold, this, hle]
  · rw [dealHoleCards_eq_none (by omega) hdeck]
    simp [hle]

end Opening

end VibePoker.Game
