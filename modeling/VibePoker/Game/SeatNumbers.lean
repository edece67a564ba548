import VibePoker.Game.Reached

/-!
# Seat numbers in a hand

The seat numbers that a hand puts into its events and prompts are positions in
the list of starting stacks. They name the dealer or a seat that holds chips, and
every seat that holds chips is named when it gets its cards.

## Main definitions

* `Output.seatNumbers` — the seat numbers of an event or prompt
* `Names` — all seat numbers of a run satisfy a predicate
* `Sits` — every seat that is part of the hand satisfies it

## Main results

* `names_runHand` — a hand names its dealer and its seats with chips only
* `holeCardsDealt_mem_runHand` — each seat with chips is named
-/

namespace VibePoker.Game

open VibePoker.Core VibePoker.Math

variable {n : ℕ} {e : Engine} {P : ℕ → Prop}

/-- The seat numbers of an event. -/
def EngineEvent.seatNumbers : EngineEvent → List ℕ
  | .handStarted _ dealer _ => [dealer]
  | .holeCardsDealt seat _ => [seat]
  | .boardDealt _ _ => []
  | .actionTaken seat _ _ => [seat]
  | .playerAllIn seat _ => [seat]
  | .handEnded _ result => result.seats.map SeatOutcome.seat

/-- The seat numbers of an event or prompt. -/
def Output.seatNumbers : Output n → List ℕ
  | .event ev => ev.seatNumbers
  | .notify ev => ev.seatNumbers
  | .prompt _ obs => [obs.position]

/-- All seat numbers of the outputs satisfy `P`. -/
def Names (P : ℕ → Prop) (outputs : List (Output n)) : Prop :=
  ∀ o ∈ outputs, ∀ k ∈ o.seatNumbers, P k

@[simp] theorem names_nil : Names P ([] : List (Output n)) := by simp [Names]

@[simp] theorem names_cons {o : Output n} {outputs : List (Output n)} :
    Names P (o :: outputs) ↔ (∀ k ∈ o.seatNumbers, P k) ∧ Names P outputs := by
  simp [Names]

@[simp] theorem names_append {outputs later : List (Output n)} :
    Names P (outputs ++ later) ↔ Names P outputs ∧ Names P later := by
  simp only [Names, List.mem_append, or_imp, forall_and]

/-! ## Seats that are part of a hand -/

/-- Every seat that is not out of the hand satisfies `P`. -/
def Sits (P : ℕ → Prop) (s : GameState n) : Prop := ∀ i, (s.players i).status ≠ .out → P i

theorem Sits.congr {s t : GameState n} (h : Sits P s)
    (hstatus : ∀ i, (t.players i).status = (s.players i).status) : Sits P t := by
  intro i hi
  rw [hstatus] at hi
  exact h i hi

theorem Sits.setPlayer {s : GameState n} (h : Sits P s) {seat : Fin n} (hseat : P seat)
    (p : PlayerState) : Sits P (s.setPlayer seat p) := by
  intro i hi
  by_cases hne : i = seat
  · rw [hne]
    exact hseat
  · rw [setPlayer_players, if_neg hne] at hi
    exact h i hi

theorem Sits.of_stillIn {s : GameState n} (h : Sits P s) {i : Fin n}
    (hin : (s.players i).stillIn) : P i := by
  refine h i fun hout => ?_
  simp [PlayerState.stillIn, hout] at hin

/-- The blinds are posted by seats of the hand, or by its dealer. -/
theorem Sits.sbSeat {s : GameState n} (h : Sits P s) (hdealer : P s.dealer) : P (sbSeat s) := by
  rw [Game.sbSeat]
  cases hfound : nextActiveAfterInList s.dealer s.players with
  | none => exact hdealer
  | some seat => exact h.of_stillIn (nextActiveAfterInList_stillIn hfound)

theorem Sits.bbSeat {s : GameState n} (h : Sits P s) (hdealer : P s.dealer) : P (bbSeat s) := by
  rw [Game.bbSeat]
  cases hfound : nextActiveAfterInList (Game.sbSeat s) s.players with
  | none => exact h.sbSeat hdealer
  | some seat => exact h.of_stillIn (nextActiveAfterInList_stillIn hfound)

/-! ## Every operation names seats of the hand -/

/-- All seat numbers of the events satisfy `P`. -/
def EventsName (P : ℕ → Prop) (events : List EngineEvent) : Prop :=
  ∀ ev ∈ events, ∀ k ∈ ev.seatNumbers, P k

theorem eventsName_nil : EventsName P [] := by simp [EventsName]

theorem eventsName_singleton {ev : EngineEvent} (h : ∀ k ∈ ev.seatNumbers, P k) :
    EventsName P [ev] := by
  simpa [EventsName] using h

theorem EventsName.append {events later : List EngineEvent} (h : EventsName P events)
    (hlater : EventsName P later) : EventsName P (events ++ later) :=
  List.forall_mem_append.mpr ⟨h, hlater⟩

theorem eventsName_allIn {seat : ℕ} (h : P seat) (amount : ℕ) :
    EventsName P [.playerAllIn seat amount] :=
  eventsName_singleton (by simpa [EngineEvent.seatNumbers] using h)

theorem Sits.post {s : GameState n} (h : Sits P s) {seat : Fin n} (hseat : P seat) (amount : ℕ) :
    Sits P (Engine.post s seat amount).1 ∧ EventsName P (Engine.post s seat amount).2 := by
  refine ⟨h.setPlayer hseat _, ?_⟩
  rw [Engine.post]
  dsimp only
  split
  · exact eventsName_allIn hseat _
  · exact eventsName_nil

theorem Sits.antesPosted {s : GameState n} (h : Sits P s) :
    Sits P (Game.antesPosted e s).1 ∧ EventsName P (Game.antesPosted e s).2 := by
  rw [Game.antesPosted]
  split
  · refine ⟨fun i hi => h i fun hout => hi ?_, fun ev hev => ?_⟩
    · simp [Engine.postAntes, Engine.postAnte, hout]
    · obtain ⟨i, -, hi⟩ := List.mem_filterMap.mp hev
      split at hi
      · rename_i hactive
        obtain rfl := Option.some.inj hi
        refine eventsName_allIn (h i ?_) _ _ (List.mem_singleton_self _)
        simp [hactive.1]
      · cases hi
  · exact ⟨h, eventsName_nil⟩

theorem Sits.postBlinds {s s' : GameState n} {events : List EngineEvent} (h : Sits P s)
    (hdealer : P s.dealer) (hpost : e.postBlinds s = some (s', events)) :
    Sits P s' ∧ EventsName P events := by
  rw [Engine.postBlinds] at hpost
  split at hpost
  case isTrue hseats =>
    obtain ⟨rfl, rfl⟩ := Prod.mk.inj (Option.some.inj hpost)
    obtain ⟨hsb, hsbEvents⟩ :=
      @Sits.post n P s h ⟨Game.sbSeat s, hseats.1⟩ (h.sbSeat hdealer) e.rules.smallBlind
    obtain ⟨hbb, hbbEvents⟩ :=
      @Sits.post n P _ hsb ⟨Game.bbSeat s, hseats.2⟩ (h.bbSeat hdealer) e.rules.bigBlind
    exact ⟨hbb.congr fun i => rfl, hsbEvents.append hbbEvents⟩
  case isFalse => cases hpost

theorem Sits.dealHoleCards {seats : List (Fin n)} {s s' : GameState n} {deck deck' : Deck}
    {events : List EngineEvent} (h : Sits P s)
    (hdeal : Engine.dealHoleCards seats s deck = some (s', deck', events)) :
    Sits P s' ∧ EventsName P events := by
  induction seats generalizing s deck events with
  | nil =>
    simp only [Engine.dealHoleCards, Option.some.injEq, Prod.mk.injEq] at hdeal
    obtain ⟨rfl, -, rfl⟩ := hdeal
    exact ⟨h, eventsName_nil⟩
  | cons i seats ih =>
    rcases dealHoleCards_cons hdeal with ⟨_, _, _, _, later, hin, -, -, hrest, rfl⟩ | ⟨-, hrest⟩
    · have hseat : P i := h.of_stillIn hin
      obtain ⟨hlater, hevents⟩ := ih (h.setPlayer hseat _) hrest
      refine ⟨hlater, List.forall_mem_cons.mpr ⟨?_, hevents⟩⟩
      simpa [EngineEvent.seatNumbers] using hseat
    · exact ih h hrest

theorem Sits.foldDeadHands {seatKinds : Option (List SeatKind)} {s s' : GameState n}
    (h : Sits P s) (hfold : Engine.foldDeadHands seatKinds s = some s') : Sits P s' := by
  cases seatKinds with
  | none =>
    obtain rfl := Option.some.inj hfold
    exact h
  | some kinds =>
    simp only [Engine.foldDeadHands] at hfold
    split at hfold
    case isTrue => cases hfold
    case isFalse =>
      obtain rfl := Option.some.inj hfold
      refine fun i hi => h i fun hout => hi ?_
      simp [hout]

/-- An action names and changes the acting seat only. -/
theorem Sits.performAction {s : GameState n} (h : Sits P s) {seat : Fin n} (hseat : P seat)
    (action : Action) :
    Sits P (Engine.performAction s seat action).1 ∧
      EventsName P (Engine.performAction s seat action).2.2 := by
  cases action with
  | fold => exact ⟨h.setPlayer hseat _, eventsName_nil⟩
  | check => exact ⟨h, eventsName_nil⟩
  | call =>
    refine ⟨h.setPlayer hseat _, ?_⟩
    simp only [Engine.performAction]
    split
    · exact eventsName_allIn hseat _
    · exact eventsName_nil
  | raise amount =>
    exact ⟨(h.setPlayer hseat _).congr fun i => rfl, eventsName_nil⟩
  | allIn =>
    have hstate := fun p => h.setPlayer hseat p
    simp only [Engine.performAction]
    split_ifs
    · exact ⟨(hstate _).congr fun i => rfl, eventsName_allIn hseat _⟩
    · exact ⟨(hstate _).congr fun i => rfl, eventsName_allIn hseat _⟩
    · exact ⟨hstate _, eventsName_allIn hseat _⟩

theorem mem_reportEnd {hand : List (Output n) × HandOutcome n} {output : Output n}
    (h : output ∈ hand.1) : output ∈ (reportEnd hand).1 := by
  rw [reportEnd]
  split
  · exact List.mem_append_left _ h
  · exact h

theorem position_of_observation {d : Decision n} {obs : Observation}
    (h : d.observation e = some obs) : obs.position = d.seat := by
  obtain ⟨hole, -, rfl⟩ := Option.map_eq_some_iff.mp h
  rfl

/-- The dealer of a hand stays the same. -/
theorem performAction_dealer (s : GameState n) (seat : Fin n) (action : Action) :
    (Engine.performAction s seat action).1.dealer = s.dealer := by
  cases action with
  | allIn =>
    simp only [Engine.performAction]
    split_ifs <;> rfl
  | _ => rfl

theorem dealHoleCards_dealer {seats : List (Fin n)} {s s' : GameState n} {deck deck' : Deck}
    {events : List EngineEvent}
    (hdeal : Engine.dealHoleCards seats s deck = some (s', deck', events)) :
    s'.dealer = s.dealer := by
  induction seats generalizing s deck events with
  | nil =>
    obtain ⟨rfl, -⟩ := Prod.mk.inj (Option.some.inj hdeal)
    rfl
  | cons i seats ih =>
    rcases dealHoleCards_cons hdeal with ⟨_, _, _, _, later, -, -, -, hrest, -⟩ | ⟨-, hrest⟩
    · have hlater := ih hrest
      exact hlater
    · exact ih hrest

section Hand

variable {handId deckSeed : ℕ} {startingStacks : List ℕ} {dealer : ℕ}
  {s : GameState startingStacks.length} {events : List EngineEvent}

theorem Reached.dealer_eq (h : Reached e handId deckSeed startingStacks dealer s events) :
    s.dealer = dealer := by
  induction h with
  | started => rfl
  | antesPosted _ ih =>
    rw [← ih, Game.antesPosted]
    split <;> rfl
  | blindsPosted _ hpost ih =>
    rw [Engine.postBlinds] at hpost
    split at hpost
    case isTrue =>
      obtain ⟨rfl, -⟩ := Prod.mk.inj (Option.some.inj hpost)
      exact ih
    case isFalse => cases hpost
  | holeCardsDealt _ _ hdeal ih => exact (dealHoleCards_dealer hdeal).trans ih
  | deadHandsFolded _ _ hfold ih => exact (foldDeadHands_eq_some hfold).1 ▸ ih
  | acted _ _ raw ih => exact (performAction_dealer _ _ _).trans ih
  | boardDealt _ hdeal ih =>
    obtain ⟨cards, -, rfl, -⟩ := dealBoardCards_board hdeal
    exact ih
  | asked | collected | streetBegun | boardFilled => assumption

/-- In every state of a hand, and in the events on the way into it, only the dealer
and seats that hold chips at the start are part of the hand. -/
theorem Reached.names (h : Reached e handId deckSeed startingStacks dealer s events)
    (hdealer : P dealer) (hfunded : ∀ i, 0 < startingStacks.get i → P i) :
    Sits P s ∧ EventsName P events := by
  induction h with
  | started =>
    refine ⟨fun i hi => hfunded i ?_, eventsName_singleton ?_⟩
    · by_contra hzero
      exact hi (if_neg hzero)
    · simpa [EngineEvent.seatNumbers] using hdealer
  | antesPosted _ ih => exact ih.1.antesPosted
  | blindsPosted h hpost ih => exact ih.1.postBlinds (h.dealer_eq.symm ▸ hdealer) hpost
  | holeCardsDealt _ _ hdeal ih => exact ih.1.dealHoleCards hdeal
  | deadHandsFolded _ _ hfold ih => exact ⟨ih.1.foldDeadHands hfold, eventsName_nil⟩
  | @acted s _ _ seat hactive raw ih =>
    have hseat : P seat := ih.1 seat (by simp [hactive])
    obtain ⟨hstate, hevents⟩ := ih.1.performAction hseat (Engine.normalizeAction s seat raw)
    refine ⟨hstate, hevents.append (eventsName_singleton ?_)⟩
    simpa [EngineEvent.seatNumbers] using hseat
  | boardDealt _ hdeal ih =>
    obtain ⟨cards, -, rfl, rfl⟩ := dealBoardCards_board hdeal
    exact ⟨ih.1, eventsName_singleton (by simp [EngineEvent.seatNumbers])⟩
  | asked | collected | streetBegun | boardFilled =>
    rename_i ih
    exact ⟨ih.1, eventsName_nil⟩

/-! ## The whole hand -/

section Run

variable {order : Fin 52 → Card} {seatKinds : Option (List SeatKind)} {answers : List Action}

/-- The result of a hand reports the seats that were part of it. -/
theorem names_result {result : HandResult} {players : Fin startingStacks.length → PlayerState}
    {chipDeltas : Fin startingStacks.length → ℤ} {rest : List Action}
    (h : (runHand e handId deckSeed order startingStacks dealer seatKinds answers).2 =
      .finished result players chipDeltas rest)
    (hdealer : P dealer) (hfunded : ∀ i, 0 < startingStacks.get i → P i) :
    ∀ k ∈ result.seats.map SeatOutcome.seat, P k := by
  have hany : ∀ p ∈ answered
      (runHand e handId deckSeed order startingStacks dealer seatKinds answers).1 answers,
      True := fun _ _ => trivial
  have hfrom := (@runHand_from e handId deckSeed startingStacks dealer order seatKinds answers).2
  rw [h] at hfrom
  obtain ⟨s, events, s', hreached, rfl, haward⟩ := hfrom
  -- the award changes stacks and the pot, never who is in the hand
  have hsits : Sits P s' := by
    refine (hreached.names hdealer hfunded).1.congr fun i => ?_
    rcases haward with ⟨winner, haward⟩ | hresolve
    · obtain ⟨rfl, -⟩ := Prod.mk.inj haward
      simp only [collectStreetBets]
      split <;> rfl
    · obtain ⟨-, -, rfl⟩ := resolveShowdown_eq_some hresolve
      rfl
  rcases runHand_trace (fun _ _ => True) hany with
    ⟨-, hpanicked⟩ | ⟨t, used, rest', t', -, -, -, hends⟩
  · rw [h] at hpanicked
    cases hpanicked
  · rw [h] at hends
    obtain ⟨-, hplayers, -, rfl⟩ := hends.terminal
    intro k hk
    obtain ⟨o, ho, rfl⟩ := List.mem_map.mp hk
    obtain ⟨i, hi, rfl⟩ := List.mem_map.mp ho
    refine hsits i ?_
    rw [hplayers]
    exact of_decide_eq_true (List.mem_filter.mp hi).2

/-- A hand names its dealer and seats that hold chips at its start, and no others. -/
theorem names_runHand (hdealer : P dealer) (hfunded : ∀ i, 0 < startingStacks.get i → P i) :
    Names P (runHand e handId deckSeed order startingStacks dealer seatKinds answers).1 := by
  intro output houtput k hk
  rcases (@runHand_from e handId deckSeed startingStacks dealer order seatKinds answers).1
    output houtput with hfrom | ⟨result, players, chipDeltas, rest, hout, rfl⟩
  · cases output with
    | event ev =>
      obtain ⟨s, events, hreached, hmem⟩ := hfrom
      exact (hreached.names hdealer hfunded).2 ev hmem k hk
    | notify ev =>
      obtain ⟨s, events, hreached, hmem⟩ := hfrom
      exact (hreached.names hdealer hfunded).2 ev hmem k hk
    | prompt d obs =>
      have hprompt : (d, obs) ∈ promptsOf
          (runHand e handId deckSeed order startingStacks dealer seatKinds answers).1 :=
        List.mem_filterMap.mpr ⟨_, houtput, rfl⟩
      obtain ⟨t, used, t', -, -, -, hobs⟩ := asked_of_prompt hprompt
      obtain ⟨deck, hplaying⟩ := playing_of_prompt hprompt
      rw [List.mem_singleton.mp hk, position_of_observation hobs]
      exact hfunded d.seat (hplaying.start_pos d.seat (by
        simp [PlayerState.stillIn, unsettled_active hplaying.isOpen]))
  · exact names_result hout hdealer hfunded k hk

/-- Dealing announces the cards of every listed seat that is still in. -/
theorem holeCardsDealt_mem {seats : List (Fin n)} {s s' : GameState n} {deck deck' : Deck}
    {events : List EngineEvent}
    (hdeal : Engine.dealHoleCards seats s deck = some (s', deck', events)) {i : Fin n}
    (hi : i ∈ seats) (hin : (s.players i).stillIn) :
    ∃ cards, EngineEvent.holeCardsDealt i cards ∈ events := by
  induction seats generalizing s deck events with
  | nil => cases hi
  | cons j seats ih =>
    rcases dealHoleCards_cons hdeal with
      ⟨first, _, second, _, later, -, -, -, hrest, rfl⟩ | ⟨hj, hrest⟩
    · rcases List.mem_cons.mp hi with rfl | hi
      · exact ⟨_, List.mem_cons_self⟩
      · obtain ⟨cards, hmem⟩ := ih hrest hi (by rwa [setPlayer_holeCards_stillIn])
        exact ⟨cards, List.mem_cons_of_mem _ hmem⟩
    · rcases List.mem_cons.mp hi with rfl | hi
      · exact absurd hin hj
      · exact ih hrest hi hin

/-- As long as the deck holds enough cards, every seat with chips is told its cards. -/
theorem holeCardsDealt_mem_runHand (hcards : 2 * fundedSeats startingStacks ≤ 52)
    {i : Fin startingStacks.length} (hi : 0 < startingStacks.get i) :
    ∃ cards, Output.event (.holeCardsDealt i cards) ∈
      (runHand e handId deckSeed order startingStacks dealer none answers).1 := by
  have hfunded : 0 < fundedSeats startingStacks :=
    List.countP_pos_iff.mpr ⟨_, List.get_mem startingStacks i, by simpa using hi⟩
  have hsome := (@setupHand_isSome_iff e handId (.new order) startingStacks dealer none hfunded
    (Nat.zero_le _)).mpr ⟨by simpa [Deck.new] using hcards, fun _ _ => rfl⟩
  obtain ⟨⟨s, deck, canonicalBb, events⟩, hsetup⟩ := Option.isSome_iff_exists.mp hsome
  obtain ⟨s₁, blinds, s₂, dealt, hblinds, hdeal, -, rfl, rfl⟩ := setupHand_cases hsetup
  have hin : (s₁.players i).stillIn := by
    rw [postBlinds_forced hblinds]
    change (forcedPlayer e startingStacks dealer i).stillIn
    rw [forcedPlayer_stillIn hfunded]
    simpa using hi
  obtain ⟨cards, hmem⟩ := holeCardsDealt_mem hdeal (List.mem_finRange i) hin
  refine ⟨cards, ?_⟩
  have hevents : Output.event (.holeCardsDealt i cards) ∈
      ((antesPosted e (e.initState handId startingStacks dealer)).2 ++ blinds ++ dealt).map
        (Output.event (n := startingStacks.length)) :=
    List.mem_map_of_mem (List.mem_append_right _ hmem)
  rw [runHand, hsetup]
  refine mem_reportEnd ?_
  exact List.mem_cons_of_mem _ (List.mem_append_left _ hevents)

theorem handStarted_mem_runHand : Output.event (.handStarted handId dealer deckSeed) ∈
    (runHand e handId deckSeed order startingStacks dealer seatKinds answers).1 := by
  rw [runHand]
  cases hsetup : setupHand e (.new order) (e.initState handId startingStacks dealer) seatKinds with
  | none => exact List.mem_cons_self
  | some opened => exact mem_reportEnd List.mem_cons_self

end Run

end Hand

end VibePoker.Game
