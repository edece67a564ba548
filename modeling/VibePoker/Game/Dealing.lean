import VibePoker.Core.Shuffle
import VibePoker.Game.Passage
import VibePoker.Game.ReseatHand
import VibePoker.Game.Termination

/-!
# Where the cards of a hand come from

The hole cards come from the top of the deck, and the board from the cards after them. What
a tree shows and what its deck has still to deal make up the whole deck, at every node. The
street loop cannot deal a card that it does not report, since the board is complete when it
comes to the showdown.

## Main definitions

* `reportedCards` — the cards that a run reports, in order
* `GameState.seatCards` — the hole cards of all seats
* `DealsOn` — what the events on the way to the next node deal

## Main results

* `dealsOn_applyAction` — an answer deals the next cards of the deck
* `deck_of_new` — the first node has the hole cards from the top of the deck
* `reportedCards_runHand` — a hand reports the first cards of its deck
-/

namespace VibePoker.Game

open VibePoker.Core VibePoker.CS

variable {n : ℕ} {e : Engine}

/-! ## Cards of events and states -/

/-- The cards that an event deals. -/
def EngineEvent.cards : EngineEvent → List Card
  | .holeCardsDealt _ hole => [hole.1, hole.2]
  | .boardDealt _ cards => cards
  | _ => []

/-- The cards that a run reports to be dealt, in order. -/
def reportedCards (outputs : List (Output n)) : List Card :=
  (eventsOf outputs).flatMap EngineEvent.cards

@[simp] theorem reportedCards_append (outputs later : List (Output n)) :
    reportedCards (outputs ++ later) = reportedCards outputs ++ reportedCards later := by
  rw [reportedCards, eventsOf_append, List.flatMap_append]
  rfl

@[simp] theorem reportedCards_cons_prompt (d : Decision n) (obs : Observation)
    (outputs : List (Output n)) :
    reportedCards (.prompt d obs :: outputs) = reportedCards outputs := rfl

@[simp] theorem reportedCards_events (events : List EngineEvent) :
    reportedCards (events.map Output.event : List (Output n)) =
      events.flatMap EngineEvent.cards := by
  rw [reportedCards, eventsOf_events]

/-- Seats that go all-in are no cards. -/
theorem cards_of_allIn {events : List EngineEvent}
    (h : ∀ event ∈ events, ∃ seat total, event = .playerAllIn seat total) :
    events.flatMap EngineEvent.cards = [] := by
  refine List.flatMap_eq_nil_iff.mpr fun event hevent => ?_
  obtain ⟨seat, total, rfl⟩ := h event hevent
  rfl

/-- The hole cards of a seat. -/
def PlayerState.cards (p : PlayerState) : List Card :=
  match p.holeCards with
  | some hole => [hole.1, hole.2]
  | none => []

/-- The hole cards of all seats. -/
def GameState.seatCards (s : GameState n) : List Card :=
  (List.finRange n).flatMap fun i => (s.players i).cards

theorem PlayerState.cards_congr {p p' : PlayerState} (h : p'.holeCards = p.holeCards) :
    p'.cards = p.cards := by
  rw [PlayerState.cards, PlayerState.cards, h]

theorem GameState.seatCards_congr {s s' : GameState n}
    (h : ∀ i, (s'.players i).holeCards = (s.players i).holeCards) :
    s'.seatCards = s.seatCards := by
  simp only [GameState.seatCards, PlayerState.cards_congr (h _)]

/-! ## Dealing the hole cards -/

/-- The hole cards come from the top of the deck, seat by seat. -/
theorem cards_of_dealHoleCards {seats : List (Fin n)} (hnodup : seats.Nodup)
    {s s' : GameState n} {deck deck' : Deck} {events : List EngineEvent}
    (hbefore : ∀ i ∈ seats, (s.players i).holeCards = none)
    (h : Engine.dealHoleCards seats s deck = some (s', deck', events)) :
    deck.toCome = events.flatMap EngineEvent.cards ++ deck'.toCome ∧
      (seats.flatMap fun i => (s'.players i).cards) = events.flatMap EngineEvent.cards := by
  induction seats generalizing s deck events with
  | nil =>
    obtain ⟨rfl, rfl, rfl⟩ : s = s' ∧ deck = deck' ∧ [] = events := by
      simpa [Engine.dealHoleCards] using h
    exact ⟨rfl, rfl⟩
  | cons first seats ih =>
    obtain ⟨hfirst, hnodup⟩ := List.nodup_cons.mp hnodup
    rcases dealHoleCards_cons h with
      ⟨one, deck₁, two, deck₂, later, -, hone, htwo, hrest, rfl⟩ | ⟨-, hrest⟩
    · set s₁ := s.setPlayer first { s.players first with holeCards := some (one, two) } with hs₁
      -- the seats are distinct, so that the rest are still without cards
      have hlater : ∀ i ∈ seats, (s₁.players i).holeCards = none := by
        intro i hi
        rw [hs₁, setPlayer_players, if_neg (ne_of_mem_of_not_mem hi hfirst)]
        exact hbefore i (List.mem_cons_of_mem _ hi)
      obtain ⟨hdeck, hcards⟩ := ih hnodup hlater hrest
      have hseat : (s'.players first).cards = [one, two] := by
        rw [(dealHoleCards_holeCards hnodup hrest).2.1 first (Or.inl hfirst), hs₁,
          setPlayer_players, if_pos rfl]
        rfl
      refine ⟨?_, ?_⟩
      · rw [Deck.toCome_of_deal hone, Deck.toCome_of_deal htwo, hdeck]
        rfl
      · rw [List.flatMap_cons, List.flatMap_cons, hcards, hseat]
        rfl
    · have hlater : ∀ i ∈ seats, (s.players i).holeCards = none := fun i hi =>
        hbefore i (List.mem_cons_of_mem _ hi)
      obtain ⟨hdeck, hcards⟩ := ih hnodup hlater hrest
      have hseat : (s'.players first).cards = [] := by
        rw [(dealHoleCards_holeCards hnodup hrest).2.1 first (Or.inl hfirst), PlayerState.cards,
          hbefore first List.mem_cons_self]
      exact ⟨hdeck, by rw [List.flatMap_cons, hcards, hseat, List.nil_append]⟩

/-- The setup deals the hole cards, and nothing but them. -/
theorem cards_of_setupHand {handId dealer canonicalBb : ℕ} {startingStacks : List ℕ}
    {seatKinds : Option (List SeatKind)} {s : GameState startingStacks.length}
    {deck deck' : Deck} {events : List EngineEvent}
    (h : setupHand e deck (e.initState handId startingStacks dealer) seatKinds =
      some (s, deck', canonicalBb, events)) :
    deck.toCome = events.flatMap EngineEvent.cards ++ deck'.toCome ∧
      s.seatCards = events.flatMap EngineEvent.cards := by
  obtain ⟨s₁, blinds, s₂, dealt, hblinds, hdeal, hfold, -, rfl⟩ := setupHand_cases h
  have hforced : ((antesPosted e (e.initState handId startingStacks dealer)).2 ++
      blinds).flatMap EngineEvent.cards = [] :=
    cards_of_allIn (forced_allIn hblinds)
  have hbefore : ∀ i ∈ List.finRange startingStacks.length,
      (s₁.players i).holeCards = none := by
    intro i _
    rw [postBlinds_forced hblinds]
    exact forcedPlayer_holeCards i
  obtain ⟨hdeck, hcards⟩ := cards_of_dealHoleCards (List.nodup_finRange _) hbefore hdeal
  have hkept : s.seatCards = s₂.seatCards :=
    GameState.seatCards_congr fun i => by rw [(foldDeadHands_eq_some hfold).2 i]
  rw [List.flatMap_append, hforced, List.nil_append, hkept]
  exact ⟨hdeck, hcards⟩

/-- Also before a panic the setup deals from the top of the deck. -/
theorem cards_of_setupEvents {handId dealer : ℕ} {startingStacks : List ℕ} (deck : Deck) :
    (setupEvents e deck (e.initState handId startingStacks dealer)).flatMap EngineEvent.cards <+:
      deck.toCome := by
  rcases setupEvents_cases (e := e) deck (e.initState handId startingStacks dealer) with
    hantes | ⟨s₁, blinds, before, after, s₂, deck', dealt, hblinds, hseats, hdeal, hall⟩
  · rw [hantes, cards_of_allIn (antesPosted_allIn _)]
    exact List.nil_prefix
  · have hnodup : (before ++ after).Nodup := hseats ▸ List.nodup_finRange _
    have hbefore : ∀ i ∈ before, (s₁.players i).holeCards = none := by
      intro i _
      rw [postBlinds_forced hblinds]
      exact forcedPlayer_holeCards i
    obtain ⟨hdeck, -⟩ := cards_of_dealHoleCards (List.Nodup.of_append_left hnodup) hbefore hdeal
    rw [hall, List.flatMap_append, cards_of_allIn (forced_allIn hblinds), List.nil_append]
    exact ⟨_, hdeck.symm⟩

/-! ## Dealing on -/

/-- What happens from a state on, until the next node: the events report cards from the top
of the deck, and at the next node the board has them, nobody else has got cards, and the
deck goes on after them. -/
structure DealsOn (s : GameState n) (deck : Deck)
    (start : List EngineEvent × Option (GameTree n)) : Prop where
  reported : start.1.flatMap EngineEvent.cards <+: deck.toCome
  deck_eq : ∀ t, start.2 = some t →
    deck.toCome = start.1.flatMap EngineEvent.cards ++ t.deck.toCome
  board_eq : ∀ t, start.2 = some t →
    t.state.board = s.board ++ start.1.flatMap EngineEvent.cards
  seats_eq : ∀ t, start.2 = some t → t.state.seatCards = s.seatCards
  fits : ∀ t d, start.2 = some t → t.decision? = some d → BoardFits d.state

/-- The next node, with nothing dealt on the way. -/
theorem DealsOn.here {s : GameState n} {deck : Deck} {t : GameTree n} (hdeck : t.deck = deck)
    (hboard : t.state.board = s.board) (hseats : t.state.seatCards = s.seatCards)
    (hfits : ∀ d, t.decision? = some d → BoardFits d.state) : DealsOn s deck ([], some t) where
  reported := List.nil_prefix
  deck_eq t' h := by
    obtain rfl := Option.some.inj h
    rw [hdeck]
    rfl
  board_eq t' h := by
    obtain rfl := Option.some.inj h
    rw [hboard]
    exact (List.append_nil _).symm
  seats_eq t' h := by
    obtain rfl := Option.some.inj h
    exact hseats
  fits t' d h hd := by
    obtain rfl := Option.some.inj h
    exact hfits d hd

/-- A panic deals nothing. -/
theorem DealsOn.panicked (s : GameState n) (deck : Deck) : DealsOn s deck ([], none) where
  reported := List.nil_prefix
  deck_eq _ h := by cases h
  board_eq _ h := by cases h
  seats_eq _ h := by cases h
  fits _ _ h := by cases h

/-- What happens after some cards were dealt. -/
theorem DealsOn.after {s s₁ : GameState n} {deck deck₁ : Deck} {events : List EngineEvent}
    {later : List EngineEvent × Option (GameTree n)}
    (hdeck : deck.toCome = events.flatMap EngineEvent.cards ++ deck₁.toCome)
    (hboard : s₁.board = s.board ++ events.flatMap EngineEvent.cards)
    (hseats : s₁.seatCards = s.seatCards) (hlater : DealsOn s₁ deck₁ later) :
    DealsOn s deck (events ++ later.1, later.2) where
  reported := by
    rw [List.flatMap_append, hdeck]
    exact (List.prefix_append_right_inj _).mpr hlater.reported
  deck_eq t h := by
    rw [List.flatMap_append, List.append_assoc, ← hlater.deck_eq t h, hdeck]
  board_eq t h := by
    rw [List.flatMap_append, ← List.append_assoc, ← hboard, hlater.board_eq t h]
  seats_eq t h := (hlater.seats_eq t h).trans hseats
  fits := hlater.fits

/-- Paying a seat does not touch the cards. -/
theorem seatCards_uncontested (s : GameState n) (deck : Deck) (winner : Fin n) :
    (GameTree.uncontested s deck winner).state.seatCards = s.seatCards := by
  refine GameState.seatCards_congr fun i => ?_
  change (if i = winner then _ else _ : PlayerState).holeCards = _
  split <;> rfl

/-- The street loop deals on. -/
theorem dealsOn_advanceStreets {fuel : ℕ} {s : GameState n} {deck : Deck}
    (hbets : ∀ i, (s.players i).betThisStreet = 0) (hfits : BoardFits s) :
    DealsOn s deck (GameTree.advanceStreets e fuel s deck) := by
  induction fuel generalizing s deck with
  | zero => exact .panicked s deck
  | succ fuel ih =>
    rw [GameTree.advanceStreets]
    cases hnext : GameTree.nextStreet s.street with
    | none =>
      -- the board is complete, so that nothing remains to be dealt
      have hfive := board_length_of_nextStreet_eq_none hfits hnext
      simp only [Engine.dealRemainingBoard, hfive, Nat.sub_self, if_true, Option.bind_eq_bind,
        Option.bind_some]
      cases hresolve : e.resolveShowdown { s with street := .showdown } with
      | none => exact .panicked s deck
      | some resolved =>
        obtain ⟨-, -, hs'⟩ := resolveShowdown_eq_some hresolve
        have hseats : resolved.1.seatCards = s.seatCards :=
          GameState.seatCards_congr fun i => by rw [hs']
        exact .here rfl (by rw [hs']) hseats fun d hd => by cases hd
    | some next =>
      obtain ⟨street, count⟩ := next
      dsimp only
      cases hdeal : Engine.dealBoardCards (e.beginStreet s street) deck count street with
      | none => exact .panicked s deck
      | some dealt =>
        obtain ⟨s₁, deck₁, event⟩ := dealt
        obtain ⟨hlater, hfresh, -, hbets₁⟩ := freshRound_of_deal hbets hfits hnext hdeal
        simp only [Engine.dealBoardCards, Option.bind_eq_bind, Option.bind_eq_some_iff,
          Option.some.injEq, Prod.mk.injEq, Prod.exists] at hdeal
        obtain ⟨cards, deck₂, hcards, hs₁, rfl, rfl⟩ := hdeal
        have hreported : [EngineEvent.boardDealt street cards].flatMap EngineEvent.cards = cards :=
          List.flatMap_singleton _ _
        have hdeck : deck.toCome = [EngineEvent.boardDealt street cards].flatMap
            EngineEvent.cards ++ deck₂.toCome := by
          rw [hreported]
          exact Deck.toCome_of_dealMany hcards
        have hboard : s₁.board = s.board ++
            [EngineEvent.boardDealt street cards].flatMap EngineEvent.cards := by
          rw [hreported, ← hs₁]
          rfl
        have hseats : s₁.seatCards = s.seatCards :=
          GameState.seatCards_congr fun i => by rw [hlater.players_eq]
        dsimp only
        cases hfirst : Engine.firstToAct s₁ with
        | some first =>
          have hround : DealsOn s₁ deck₂
              ([], some (.atDecision s₁ deck₂ first fun _ => false)) :=
            .here rfl rfl rfl fun d hd => by
              obtain rfl := Option.some.inj hd
              exact hfresh.board_fits
          exact hround.after hdeck hboard hseats
        | none =>
          -- nobody can act, and the loop goes on to the next street
          have hloop : DealsOn (collectStreetBets s₁) deck₂
              (GameTree.advanceStreets e fuel (collectStreetBets s₁) deck₂) :=
            ih (fun _ => rfl) hfresh.board_fits
          have hcollected : (collectStreetBets s₁).board = s.board ++
              [EngineEvent.boardDealt street cards].flatMap EngineEvent.cards := hboard
          exact hloop.after hdeck hcollected hseats

/-- An answer deals on. -/
theorem dealsOn_applyAction {t : GameTree n} {d : Decision n} (hd : t.decision? = some d)
    (hfits : BoardFits d.state) (action : Action) :
    DealsOn t.state t.deck (t.applyAction e action) := by
  obtain ⟨hphase, hstate⟩ := GameTree.decision?_eq_some_iff.mp hd
  set acted := Engine.applyAction t.state d.seat (Engine.normalizeAction t.state d.seat action)
    with hacted
  have happly : t.applyAction e action =
      (acted.2.2 ++ (GameTree.advance e acted.1 t.deck d.seat
          (Engine.respond d.hasResponded d.seat acted.2.1)).1,
        (GameTree.advance e acted.1 t.deck d.seat
          (Engine.respond d.hasResponded d.seat acted.2.1)).2) := by
    rw [GameTree.applyAction, hphase]
  have hcards : acted.2.2.flatMap EngineEvent.cards = [] := by
    rw [hacted, Engine.applyAction, List.flatMap_append,
      cards_of_allIn (performAction_allIn _ _ _)]
    rfl
  have hseats : acted.1.seatCards = t.state.seatCards :=
    GameState.seatCards_congr fun i => performAction_holeCards _ _ _ _
  have hboard : acted.1.board = t.state.board := performAction_board _ _ _
  have hacted_fits : BoardFits acted.1 := by
    rw [BoardFits, hboard, hacted, applyAction_street, hstate]
    exact hfits
  rw [happly]
  refine DealsOn.after (by rw [hcards]; rfl) (by rw [hcards, hboard, List.append_nil]) hseats ?_
  rw [GameTree.advance]
  split
  case isTrue hone =>
    cases hwinner : acted.1.firstStillIn with
    | none => exact .panicked _ _
    | some winner =>
      have hpaid : (GameTree.uncontested acted.1 t.deck winner).state.seatCards =
          acted.1.seatCards := seatCards_uncontested _ _ _
      exact .here rfl rfl hpaid fun d hd => by cases hd
  case isFalse hmany =>
    split
    case h_1 next hnext =>
      refine .here rfl rfl rfl fun d hd => ?_
      obtain rfl := Option.some.inj hd
      exact hacted_fits
    case h_2 =>
      have hstreets : DealsOn ((collectStreetBets acted.1).setActionOn none) t.deck
          (GameTree.advanceStreets e 4 ((collectStreetBets acted.1).setActionOn none) t.deck) :=
        dealsOn_advanceStreets (fun _ => rfl) hacted_fits
      exact ⟨hstreets.reported, hstreets.deck_eq, hstreets.board_eq, hstreets.seats_eq,
        hstreets.fits⟩

/-! ## Whole hands -/

namespace GameTree

/-- What the table of a tree shows and what its deck has still to deal. -/
def allCards (t : GameTree n) : List Card := t.state.seatCards ++ t.state.board ++ t.deck.toCome

/-- A run on a tree deals from the top of its deck. -/
theorem reportedCards_play {t : GameTree n} (answers : List Action)
    (hfits : ∀ d, t.decision? = some d → BoardFits d.state) :
    reportedCards (t.play e answers).1 <+: t.deck.toCome := by
  induction t, answers using play_induction e with
  | terminal t answers chipDeltas hphase =>
    rw [play_of_terminal hphase]
    exact List.nil_prefix
  | blind t answers d hd hobs =>
    rw [play_of_blind hd hobs]
    exact List.nil_prefix
  | waiting t d obs hd hobs =>
    rw [play_nil hd hobs]
    exact List.nil_prefix
  | answer t action answers d obs hd hobs ih =>
    have hstep := dealsOn_applyAction (e := e) hd (hfits d hd) action
    rw [play_cons hd hobs, reportedCards_cons_prompt, playFrom]
    cases hnext : (t.applyAction e action).2 with
    | none =>
      dsimp only
      rw [reportedCards_events]
      exact hstep.reported
    | some t' =>
      have hlater := ih t' hnext fun d' hd' => hstep.fits t' d' hnext hd'
      dsimp only
      rw [reportedCards_append, reportedCards_events, hstep.deck_eq t' hnext]
      exact (List.prefix_append_right_inj _).mpr hlater

variable {handId deckSeed : ℕ} {order : Fin 52 → Card} {startingStacks : List ℕ} {dealer : ℕ}
  {seatKinds : Option (List SeatKind)}

/-- The first node of a hand has the hole cards from the top of the deck. -/
theorem deck_of_new {t : GameTree startingStacks.length}
    (h : (new e handId deckSeed order startingStacks dealer seatKinds).2 = some t) :
    t.allCards = List.ofFn order ∧
      List.ofFn order = (new e handId deckSeed order startingStacks dealer seatKinds).1.flatMap
        EngineEvent.cards ++ t.deck.toCome ∧
      ∀ d, t.decision? = some d → BoardFits d.state := by
  rw [new] at h ⊢
  cases hsetup : setupHand e (.new order) (e.initState handId startingStacks dealer) seatKinds with
  | none => simp [hsetup] at h
  | some opened =>
    obtain ⟨s, deck, canonicalBb, events⟩ := opened
    obtain ⟨hdeck, hseats⟩ := cards_of_setupHand hsetup
    have hopened := opened_of_setupHand (Nat.zero_le 52) hsetup
    rw [Deck.toCome_new] at hdeck
    -- the board is empty, so that the deck and the hole cards are all there is
    have hnode : ∀ u : GameTree startingStacks.length, u.deck = deck →
        u.state.seatCards = s.seatCards → u.state.board = s.board →
        u.allCards = List.ofFn order := by
      intro u hudeck huseats huboard
      rw [allCards, hudeck, huseats, huboard, hseats, hopened.board_eq, List.append_nil, hdeck]
    simp only [hsetup] at h ⊢
    rw [List.flatMap_cons]
    cases hfirst : nextActiveAfter canonicalBb s.players with
    | some first =>
      simp only [hfirst, Option.some.injEq] at h
      subst h
      refine ⟨hnode _ rfl rfl rfl, hdeck, fun d hd => ?_⟩
      obtain rfl := Option.some.inj hd
      have hfits : s.board.length = boardSize s.street := by
        rw [hopened.board_eq, hopened.street_eq]
        rfl
      exact hfits
    | none =>
      simp only [hfirst, Option.bind_eq_bind, Option.bind_eq_some_iff, Option.some.injEq] at h
      obtain ⟨winner, -, rfl⟩ := h
      exact ⟨hnode _ rfl (seatCards_uncontested s deck winner) rfl, hdeck,
        fun d hd => by cases hd⟩

theorem reportedCards_playHand (answers : List Action) :
    reportedCards (playHand e handId deckSeed order startingStacks dealer seatKinds answers).1 <+:
      List.ofFn order := by
  rw [playHand, playFrom]
  cases hnew : (new e handId deckSeed order startingStacks dealer seatKinds).2 with
  | none =>
    dsimp only
    rw [reportedCards_events, new]
    cases hsetup : setupHand e (.new order) (e.initState handId startingStacks dealer)
        seatKinds with
    | none =>
      rw [← Deck.toCome_new]
      exact cards_of_setupEvents (.new order)
    | some opened =>
      obtain ⟨hdeck, -⟩ := cards_of_setupHand hsetup
      exact ⟨_, hdeck.symm⟩
  | some t =>
    obtain ⟨-, hdeck, hfits⟩ := deck_of_new hnew
    dsimp only
    rw [reportedCards_append, reportedCards_events, hdeck]
    exact (List.prefix_append_right_inj _).mpr (reportedCards_play answers hfits)

end GameTree

theorem eventsOf_core (run : List (Output n) × HandOutcome n) :
    eventsOf (core run).1 = eventsOf run.1 := by
  rw [core, eventsOf, eventsOf, List.filterMap_filter]
  refine List.filterMap_congr fun output _ => ?_
  cases output <;> rfl

theorem reportedCards_reportEnd (hand : List (Output n) × HandOutcome n) :
    reportedCards (reportEnd hand).1 = reportedCards hand.1 := by
  rw [reportEnd]
  split
  · rw [reportedCards_append]
    exact List.append_nil _
  · rfl

/-- A hand deals from the top of its deck. -/
theorem reportedCards_runHand (handId deckSeed : ℕ) (order : Fin 52 → Card)
    (startingStacks : List ℕ) (dealer : ℕ) (seatKinds : Option (List SeatKind))
    (answers : List Action) :
    reportedCards (runHand e handId deckSeed order startingStacks dealer seatKinds answers).1 <+:
      List.ofFn order := by
  rw [reportedCards, ← eventsOf_core, core_runHand, ← reportedCards, reportedCards_reportEnd]
  exact GameTree.reportedCards_playHand answers

end VibePoker.Game
