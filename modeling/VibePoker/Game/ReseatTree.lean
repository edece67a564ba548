import VibePoker.Game.Reseat

/-!
# The stepper at other seats

A hand on the stepper, from the first tree on, at other seats and with another deck that
holds the same cards where the first one is still to be dealt from.

## Main results

* `applyAction_reseat` — an answer leads on in the same way
* `play_reseat` — a run at the other seats
-/

namespace VibePoker.Game

open VibePoker.Core VibePoker.Math

variable {n m : ℕ} {e : Engine} (μ : Reseating n m)

namespace Reseating

/-- The other deck, dealt as far. -/
def deck (deck : Deck) : Deck := { deck with cards := μ.cards }

/-- The other deck holds the same cards from the cursor up to a bound. -/
def Agrees (bound : ℕ) (deck : Deck) : Prop :=
  ∀ k : Fin 52, deck.cursor ≤ k → k < bound → μ.cards k = deck.cards k

variable {μ} {bound : ℕ}

theorem Agrees.deal {deck : Deck} (h : μ.Agrees bound deck) (hlt : deck.cursor < bound) :
    (μ.deck deck).deal = deck.deal.map fun dealt => (dealt.1, μ.deck dealt.2) := by
  by_cases hcursor : deck.cursor < 52
  · rw [Deck.deal, Deck.deal, dif_pos hcursor, dif_pos (by exact hcursor), Option.map_some,
      ← h ⟨deck.cursor, hcursor⟩ le_rfl hlt]
    rfl
  · rw [Deck.deal, Deck.deal, dif_neg hcursor, dif_neg (by exact hcursor)]
    rfl

theorem Agrees.dealMany {deck : Deck} (h : μ.Agrees bound deck) (count : ℕ)
    (hle : deck.cursor + count ≤ bound) :
    (μ.deck deck).dealMany count =
        (deck.dealMany count).map (fun dealt => (dealt.1, μ.deck dealt.2)) ∧
      ∀ cards deck', deck.dealMany count = some (cards, deck') →
        deck'.cursor = deck.cursor + count ∧ μ.Agrees bound deck' := by
  induction count generalizing deck with
  | zero =>
    refine ⟨rfl, fun cards deck' hdealt => ?_⟩
    obtain ⟨-, rfl⟩ : [] = cards ∧ deck = deck' := by simpa [Deck.dealMany] using hdealt
    exact ⟨rfl, h⟩
  | succ count ih =>
    simp only [Deck.dealMany, h.deal (by omega), Option.bind_eq_bind]
    cases hfirst : deck.deal with
    | none => exact ⟨rfl, fun _ _ hdealt => by cases hdealt⟩
    | some first =>
      obtain ⟨card, deck₁⟩ := first
      obtain ⟨-, -, rfl⟩ := Deck.deal_eq_some_iff.mp hfirst
      obtain ⟨hrest, hlater⟩ := @ih { deck with cursor := deck.cursor + 1 }
        (fun k hk hlt => h k ((Nat.le_succ _).trans hk) hlt) (by dsimp only; omega)
      simp only [Option.map_some, Option.bind_some, hrest]
      cases hdealt : Deck.dealMany { deck with cursor := deck.cursor + 1 } count with
      | none => exact ⟨rfl, fun _ _ hnone => by cases hnone⟩
      | some later =>
        refine ⟨rfl, fun cards deck' hsome => ?_⟩
        obtain ⟨-, rfl⟩ : card :: later.1 = cards ∧ later.2 = deck' := by simpa using hsome
        obtain ⟨hcursor, hagrees⟩ := hlater _ _ hdealt
        exact ⟨by rw [hcursor]; dsimp only; omega, hagrees⟩

/-- The board fits its street, and the other deck holds the same cards for the rest of it. -/
structure Deals (μ : Reseating n m) (bound : ℕ) (s : GameState n) (deck : Deck) : Prop where
  fits : BoardFits s
  cursor_le : deck.cursor + 5 ≤ bound + s.board.length
  agrees : μ.Agrees bound deck

end Reseating

variable {μ} {bound : ℕ}

/-- The cards of a street come from both decks, and those of the later streets are left. -/
theorem Reseating.Deals.dealBoardCards {s : GameState n} {deck : Deck} (h : μ.Deals bound s deck)
    {street : Street} {count : ℕ} (hnext : GameTree.nextStreet s.street = some (street, count)) :
    Engine.dealBoardCards ((e.beginStreet s street).reseat μ) (μ.deck deck) count street =
        (Engine.dealBoardCards (e.beginStreet s street) deck count street).map
          (fun dealt => (dealt.1.reseat μ, μ.deck dealt.2.1, dealt.2.2.reseat μ)) ∧
      ∀ s' deck' event,
        Engine.dealBoardCards (e.beginStreet s street) deck count street =
          some (s', deck', event) → μ.Deals bound s' deck' := by
  obtain ⟨rest, hrest⟩ : ∃ rest, streetsAfter s.street = (street, count) :: rest :=
    List.head?_eq_some_iff.mp (by rw [← nextStreet_eq_head?, hnext])
  obtain ⟨-, hsize⟩ := streetsAfter_of_cons hrest
  have hfits : s.board.length = boardSize s.street := h.fits
  have hcursor := h.cursor_le
  have hfive := boardSize_le street
  obtain ⟨hmany, hlater⟩ := h.agrees.dealMany count (by omega)
  simp only [Engine.dealBoardCards, hmany, Option.bind_eq_bind]
  cases hdealt : deck.dealMany count with
  | none => exact ⟨rfl, fun _ _ _ hsome => by cases hsome⟩
  | some dealt =>
    refine ⟨rfl, fun s' deck' event hsome => ?_⟩
    obtain ⟨rfl, rfl, -⟩ : (e.beginStreet s street).extendBoard dealt.1 = s' ∧ dealt.2 = deck' ∧
        _ = event := by simpa using hsome
    obtain ⟨hcursor', hagrees⟩ := hlater _ _ hdealt
    have hlength : ((e.beginStreet s street).extendBoard dealt.1).board.length =
        s.board.length + count := by
      rw [GameState.extendBoard_board, List.length_append, Deck.dealMany_length hdealt]
      rfl
    refine ⟨?_, ?_, hagrees⟩
    · rw [BoardFits, hlength, hfits, ← hsize]
      rfl
    · rw [hlength, hcursor']
      omega

/-! ## Advancing -/

namespace GameTree

/-- At a decision, the rest of the board comes from both decks. -/
def DealsAt (μ : Reseating n m) (bound : ℕ) (t : GameTree n) : Prop :=
  ∀ d, t.decision? = some d → μ.Deals bound t.state t.deck

theorem advanceStreets_reseat (fuel : ℕ) {s : GameState n} {deck : Deck}
    (h : μ.Deals bound s deck) :
    advanceStreets e fuel (s.reseat μ) (μ.deck deck) =
        reseatStart μ (advanceStreets e fuel s deck) ∧
      ∀ t', (advanceStreets e fuel s deck).2 = some t' → DealsAt μ bound t' := by
  induction fuel generalizing s deck with
  | zero => exact ⟨rfl, fun _ hsome => by cases hsome⟩
  | succ fuel ih =>
    rw [advanceStreets, advanceStreets]
    have hstreet : (s.reseat μ).street = s.street := rfl
    rw [hstreet]
    cases hnext : nextStreet s.street with
    | none =>
      -- the board is complete, and the showdown is resolved
      have hfive := board_length_of_nextStreet_eq_none h.fits hnext
      have hboard : Engine.dealRemainingBoard s deck = ([], some (s, deck)) := by
        rw [Engine.dealRemainingBoard, hfive, if_pos rfl]
      have hboard' : Engine.dealRemainingBoard (s.reseat μ) (μ.deck deck) =
          ([], some (s.reseat μ, μ.deck deck)) := by
        rw [Engine.dealRemainingBoard, GameState.reseat_board, hfive, if_pos rfl]
      have hresolve : e.resolveShowdown { s.reseat μ with street := .showdown } = _ :=
        resolveShowdown_reseat (e := e) μ { s with street := .showdown }
      simp only [hboard, hboard', Option.bind_eq_bind, Option.bind_some, hresolve]
      cases e.resolveShowdown { s with street := .showdown } with
      | none => exact ⟨rfl, fun _ hsome => by cases hsome⟩
      | some resolved =>
        refine ⟨rfl, fun t' hsome => ?_⟩
        obtain rfl := Option.some.inj hsome
        exact fun d hd => by cases hd
    | some next =>
      obtain ⟨street, count⟩ := next
      obtain ⟨hdeal, hlater⟩ := h.dealBoardCards (e := e) hnext
      dsimp only
      rw [beginStreet_reseat, hdeal]
      cases hdealt : Engine.dealBoardCards (e.beginStreet s street) deck count street with
      | none => exact ⟨rfl, fun _ hsome => by cases hsome⟩
      | some dealt =>
        obtain ⟨s₁, deck₁, event⟩ := dealt
        have hdeals := hlater _ _ _ hdealt
        simp only [Option.map_some, firstToAct_reseat]
        cases Engine.firstToAct s₁ with
        | some first =>
          refine ⟨rfl, fun t' hsome => ?_⟩
          obtain rfl := Option.some.inj hsome
          exact fun d hd => ⟨hdeals.fits, hdeals.cursor_le, hdeals.agrees⟩
        | none =>
          obtain ⟨hrest, hrestDeals⟩ := @ih (collectStreetBets s₁) deck₁
            ⟨hdeals.fits, hdeals.cursor_le, hdeals.agrees⟩
          simp only [Option.map_none, collectStreetBets_reseat, hrest]
          exact ⟨rfl, hrestDeals⟩

theorem advance_reseat {s : GameState n} {deck : Deck} (h : μ.Deals bound s deck)
    (current : Fin n) (hasResponded : Fin n → Bool) :
    advance e (s.reseat μ) (μ.deck deck) (μ current) (fun j => hasResponded (μ.toEquiv.symm j)) =
        reseatStart μ (advance e s deck current hasResponded) ∧
      ∀ t', (advance e s deck current hasResponded).2 = some t' → DealsAt μ bound t' := by
  rw [advance, advance, playersStillIn_reseat]
  by_cases hone : s.playersStillIn = 1
  · rw [if_pos hone, if_pos hone, firstStillIn_reseat μ hone]
    cases s.firstStillIn with
    | none => exact ⟨rfl, fun _ hsome => by cases hsome⟩
    | some winner =>
      refine ⟨?_, fun t' hsome => ?_⟩
      · simp only [Option.map_some, Option.bind_eq_bind, Option.bind_some,
          awardUncontested_reseat]
        rfl
      · obtain rfl := Option.some.inj hsome
        exact fun d hd => by cases hd
  · -- who is still to answer moves with the seats
    have hunsettled : ∀ i, (s.reseat μ).unsettled (fun j => hasResponded (μ.toEquiv.symm j)) (μ i) =
        s.unsettled hasResponded i := fun i => by
      simp only [GameState.unsettled, GameState.reseat_players, Equiv.symm_apply_apply]
      rfl
    rw [if_neg hone, if_neg hone, ← μ.seat_val current, μ.find?_ringAfter]
    simp only [hunsettled]
    cases (ringAfter n current).find? fun i => s.unsettled hasResponded i with
    | some next =>
      refine ⟨rfl, fun t' hsome => ?_⟩
      obtain rfl := Option.some.inj hsome
      exact fun d hd => ⟨h.fits, h.cursor_le, h.agrees⟩
    | none =>
      have hcollected : μ.Deals bound ((collectStreetBets s).setActionOn none) deck :=
        ⟨h.fits, h.cursor_le, h.agrees⟩
      obtain ⟨hstreets, hdeals⟩ := advanceStreets_reseat (e := e) 4 hcollected
      refine ⟨?_, hdeals⟩
      rw [← hstreets, ← setActionOn_reseat, ← collectStreetBets_reseat]
      rfl

/-- An answer leads on in the same way at the other seats. -/
theorem applyAction_reseat {t : GameTree n} (h : DealsAt μ bound t) (action : Action) :
    (t.reseat μ).applyAction e action = reseatStart μ (t.applyAction e action) ∧
      ∀ t', (t.applyAction e action).2 = some t' → DealsAt μ bound t' := by
  obtain ⟨s, deck, phase⟩ := t
  cases phase with
  | terminal chipDeltas => exact ⟨rfl, fun _ hsome => by cases hsome⟩
  | decision seat hasResponded =>
    obtain ⟨hfits, hcursor, hagrees⟩ := h ⟨s, hasResponded, seat⟩ rfl
    set normalized := Engine.normalizeAction s seat action with hnormalized
    have hboard := applyAction_board s seat normalized
    have hacted : μ.Deals bound (Engine.applyAction s seat normalized).1 deck := by
      refine ⟨?_, hboard ▸ hcursor, hagrees⟩
      rw [BoardFits, hboard, applyAction_street]
      exact hfits
    obtain ⟨hadvance, hdeals⟩ := advance_reseat (e := e) hacted seat
      (Engine.respond hasResponded seat (Engine.applyAction s seat normalized).2.1)
    refine ⟨?_, hdeals⟩
    simp only [applyAction, reseat, Phase.reseat, normalizeAction_reseat,
      VibePoker.Game.applyAction_reseat, respond_reseat, ← hnormalized]
    rw [Reseating.deck] at hadvance
    rw [hadvance]
    simp only [reseatStart, List.map_append]

theorem decision?_reseat (t : GameTree n) :
    (t.reseat μ).decision? = t.decision?.map (Decision.reseat μ) := by
  obtain ⟨s, deck, _ | _⟩ := t <;> rfl

/-- The decision of a tree and what is shown at it, at the other seats. -/
theorem decision_reseat {t : GameTree n} {d : Decision n} {obs : Option Observation}
    (hdecision : t.decision? = some d) (hobs : d.observation e = obs) :
    (t.reseat μ).decision? = some (d.reseat μ) ∧
      (d.reseat μ).observation e = obs.map (Observation.reseat μ) := by
  rw [decision?_reseat, observation_reseat, hdecision, hobs]
  exact ⟨rfl, rfl⟩

/-! ## Runs -/

/-- The outcome of a seat in a result. -/
theorem find?_buildResult (handId : ℕ) (s : GameState n) (chipDeltas : Fin n → ℤ) (i : Fin n) :
    ((buildResult handId s chipDeltas).seats.find? fun o => o.seat = (i : ℕ)) =
      if (s.players i).status ≠ .out then some (seatOutcome s chipDeltas i) else none := by
  have hfind : (((List.finRange n).filter fun k => (s.players k).status ≠ .out).find? fun k =>
      (seatOutcome s chipDeltas k).seat = (i : ℕ)) =
      if (s.players i).status ≠ .out then some i else none := by
    rw [List.find?_filter]
    generalize hfound : (List.finRange n).find? _ = found
    cases found with
    | none =>
      have hnone := (find?_finRange_eq_none_iff _).mp hfound i
      simp only [decide_eq_true_eq, decide_eq_false_iff_not, not_and] at hnone
      rw [if_neg fun hin => hnone hin rfl]
    | some k =>
      have hk := List.find?_some hfound
      simp only [decide_eq_true_eq] at hk
      obtain rfl : k = i := Fin.ext hk.2
      rw [if_pos hk.1]
  rw [buildResult, List.find?_map]
  refine (congrArg (Option.map _) hfind).trans ?_
  split <;> rfl

theorem buildResult_reseat (handId : ℕ) (s : GameState n) (chipDeltas : Fin n → ℤ) :
    buildResult μ.handId (s.reseat μ) (fun j => chipDeltas (μ.toEquiv.symm j)) =
      (buildResult handId s chipDeltas).reseat μ := by
  have hseats : ∀ j : Fin m, ((buildResult handId s chipDeltas).seats.find? fun o =>
      o.seat = (μ.toEquiv.symm j : ℕ)).map (fun o => { o with seat := (j : ℕ) }) =
      if ((s.reseat μ).players j).status ≠ .out then
        some (seatOutcome (s.reseat μ) (fun j => chipDeltas (μ.toEquiv.symm j)) j) else none := by
    intro j
    rw [find?_buildResult]
    exact apply_ite (Option.map _) _ _ _
  rw [HandResult.reseat]
  simp only [hseats]
  rw [buildResult, ← List.filterMap_eq_map, List.filterMap_filter]
  simp only [decide_eq_true_eq, Function.comp_apply]
  rfl

theorem settle_reseat (s : GameState n) (chipDeltas : Fin n → ℤ) (answers : List Action) :
    settle (s.reseat μ) (fun j => chipDeltas (μ.toEquiv.symm j)) answers =
      (settle s chipDeltas answers).reseat μ := by
  rw [settle, settle, HandOutcome.reseat]
  exact congrArg (HandOutcome.finished · _ _ answers) (buildResult_reseat s.handId s chipDeltas)

theorem map_event_reseat (events : List EngineEvent) :
    ((events.map (EngineEvent.reseat μ)).map Output.event : List (Output m)) =
      (events.map Output.event : List (Output n)).map (Output.reseat μ) := by
  rw [List.map_map, List.map_map]
  rfl

/-- A run of the stepper at the other seats. -/
theorem play_reseat {t : GameTree n} (h : DealsAt μ bound t) (answers : List Action) :
    (t.reseat μ).play e answers = reseatRun μ (t.play e answers) := by
  induction t, answers using play_induction e with
  | terminal t answers chipDeltas hphase =>
    have hphase' : (t.reseat μ).phase = .terminal fun j => chipDeltas (μ.toEquiv.symm j) :=
      congrArg (Phase.reseat μ) hphase
    rw [play_of_terminal hphase, play_of_terminal hphase']
    exact congrArg (Prod.mk []) (settle_reseat t.state chipDeltas answers)
  | blind t answers d hdecision hobs =>
    obtain ⟨hdecision', hobs'⟩ := decision_reseat (μ := μ) hdecision hobs
    rw [play_of_blind hdecision hobs, play_of_blind hdecision' hobs']
    rfl
  | waiting t d obs hdecision hobs =>
    obtain ⟨hdecision', hobs'⟩ := decision_reseat (μ := μ) hdecision hobs
    rw [play_nil hdecision hobs, play_nil hdecision' hobs']
    rfl
  | answer t action answers d obs hdecision hobs ih =>
    obtain ⟨hdecision', hobs'⟩ := decision_reseat (μ := μ) hdecision hobs
    obtain ⟨hstep, hdeals⟩ := applyAction_reseat (e := e) h action
    rw [play_cons hdecision hobs, play_cons hdecision' hobs', hstep, playFrom, playFrom]
    cases hnext : (t.applyAction e action).2 with
    | none =>
      simp only [reseatStart, hnext, Option.map_none, map_event_reseat]
      rfl
    | some t₁ =>
      simp only [reseatStart, hnext, Option.map_some, map_event_reseat,
        ih t₁ hnext (hdeals t₁ hnext), reseatRun, List.map_cons, List.map_append]
      rfl

end GameTree

end VibePoker.Game
