import VibePoker.Theorems.EventStream
import VibePoker.Theorems.Masking

/-!
# What a showdown reveals

The sink of a hand keeps its own record of who folded and of the board, from the events
alone. In the hands of a table the record is that of the engine at every prompt and at the
end, so that the end of a hand shows a seat the cards of another one exactly if the engine
resolved a showdown in which the other one had not folded.

## Main definitions

* `Follows` — the sink's record is that of the engine
* `RevealsTo` — results with the cards that a seat may see

## Main results

* `reveal_agrees` — what the end of a hand shows, also on a sink that is used again
-/

namespace VibePoker.Server

open VibePoker.Core VibePoker.Game VibePoker.Net

variable {n : ℕ} {e : Engine}

/-! ## The statement -/

/-- The seats that the sink takes for folded are folded, and it has counted the board. -/
structure Follows (sink : BroadcastSink n) (s : GameState n) : Prop where
  folded_iff : ∀ j : Fin n, j.val ∈ sink.folded ↔ (s.players j).status = .folded
  boardCards_eq : sink.boardCards = s.board.length

/-- The result reports every seat, with its cards if it is seat `i`, or if the engine
resolved a showdown and the seat is not folded, and without cards otherwise. -/
structure RevealsTo (i : Fin n) (players : Fin n → PlayerState) (award : Option Award)
    (shown : HandResult) : Prop where
  seats_eq : shown.seats.map SeatOutcome.seat = (List.finRange n).map Fin.val
  present_iff : ∀ o ∈ shown.seats, ∀ j : Fin n, o.seat = j →
    (o.holeCards.isSome ↔ j = i ∨ (award = some .showdown ∧ (players j).status ≠ .folded))
  cards_eq : ∀ o ∈ shown.seats, ∀ j : Fin n, o.seat = j →
    o.holeCards.isSome → o.holeCards = (players j).holeCards

/-- The events of a hand that came to its end. -/
def CompleteHand (events : List EngineEvent) : Prop :=
  ∃ (e : Engine) (handId deckSeed : ℕ) (order : Fin 52 → Card) (startingStacks : List ℕ)
    (dealer : ℕ) (answers : List Action) (result : HandResult) (players : _) (chipDeltas : _)
    (rest : List Action),
    (runHand e handId deckSeed order startingStacks dealer none answers).2 =
      .finished result players chipDeltas rest ∧
    events = eventsOf (runHand e handId deckSeed order startingStacks dealer none answers).1

/-- If the hand ends, the sink has followed the engine at every prompt, and shows seat `i`
what the engine's showdown reveals. -/
def Reveals (e : Engine) (handId deckSeed : ℕ) (order : Fin 52 → Card) (startingStacks : List ℕ)
    (dealer : ℕ) (answers : List Action) (sink : BroadcastSink startingStacks.length)
    (i : Fin startingStacks.length) : Prop :=
  ∀ outputs result players chipDeltas rest,
    runHand e handId deckSeed order startingStacks dealer none answers =
        (outputs, .finished result players chipDeltas rest) →
      (∀ before d obs after, outputs = before ++ .prompt d obs :: after →
        Follows (sink.onEvents (eventsOf before)) d.state) ∧
      ∃ before shown,
        ((sink.onEvents (eventsOf outputs)).links i).current.sent =
          before ++ [.tableEvent sink.tableId (.handEnded result.handId shown)] ∧
        RevealsTo i players (handAward e handId order startingStacks dealer none answers) shown

/-! ## What the sink has recorded -/

/-- The sink has no record of a hand. -/
def Clear (sink : BroadcastSink n) : Prop := sink.folded = ∅ ∧ sink.boardCards = 0

theorem clear_new (tableId : ℕ) (links : Fin n → SeatLink) :
    Clear (BroadcastSink.new tableId links) := ⟨rfl, rfl⟩

theorem Clear.tracks {sink : BroadcastSink n} (h : Clear sink) : Tracks [] sink where
  mem_folded seat := by simp [h.1, HasFolded]
  boardCards_eq := h.2

theorem onEvents_append (sink : BroadcastSink n) (events later : List EngineEvent) :
    sink.onEvents (events ++ later) = (sink.onEvents events).onEvents later :=
  List.foldl_append

@[simp] theorem onEvents_tableId (sink : BroadcastSink n) (events : List EngineEvent) :
    (sink.onEvents events).tableId = sink.tableId := by
  induction events generalizing sink with
  | nil => rfl
  | cons event events ih =>
    exact (ih (sink.onEvent event)).trans (BroadcastSink.onEvent_tableId sink event)

/-- The end of a hand clears the record. -/
theorem clear_of_ended (sink : BroadcastSink n) (events : List EngineEvent) (handId : ℕ)
    (result : HandResult) : Clear (sink.onEvents (events ++ [.handEnded handId result])) := by
  rw [onEvents_append]
  exact ⟨rfl, rfl⟩

/-- Until then the sink keeps up with the events. -/
theorem Tracks.onEvents {past events : List EngineEvent} {sink : BroadcastSink n}
    (h : Tracks past sink)
    (hne : ∀ event ∈ events, ∀ handId result, event ≠ .handEnded handId result) :
    Tracks (past ++ events) (sink.onEvents events) := by
  induction events generalizing past sink with
  | nil =>
    rw [List.append_nil]
    exact h
  | cons event events ih =>
    rw [List.append_cons]
    exact ih (h.onEvent (hne event List.mem_cons_self))
      fun later hlater => hne later (List.mem_cons_of_mem _ hlater)

/-- A hand that ends leaves the record clear. -/
theorem CompleteHand.clear {events : List EngineEvent} (h : CompleteHand events)
    (sink : BroadcastSink n) : Clear (sink.onEvents events) := by
  obtain ⟨e, handId, deckSeed, order, startingStacks, dealer, answers, result, players,
    chipDeltas, rest, hout, rfl⟩ := h
  obtain ⟨s, deck, canonicalBb, events, later, -, houtputs, -⟩ :=
    runHand_passes (Prod.ext rfl hout)
  have hevents := congrArg eventsOf houtputs
  rw [eventsOf_append] at hevents
  rw [hevents]
  exact clear_of_ended sink _ _ result

theorem clear_of_hands {hands : List (List EngineEvent)}
    (hhands : ∀ hand ∈ hands, CompleteHand hand) {sink : BroadcastSink n} (h : Clear sink) :
    Clear (sink.onEvents hands.flatten) := by
  induction hands generalizing sink with
  | nil => exact h
  | cons hand hands ih =>
    rw [List.flatten_cons, onEvents_append]
    exact ih (fun later hlater => hhands later (List.mem_cons_of_mem _ hlater))
      ((hhands hand List.mem_cons_self).clear sink)

/-! ## What the engine has reported -/

/-- The events reported so far tell the state: who folded, and the board. Every seat is in
the hand and holds cards. -/
structure Told (past : List EngineEvent) (s : GameState n) : Prop where
  folded_iff : ∀ j : Fin n, HasFolded past j ↔ (s.players j).status = .folded
  cards_eq : cardsDealt past = s.board.length
  not_out : ∀ j, (s.players j).status ≠ .out
  holeCards : ∀ j, (s.players j).holeCards ≠ none
  not_ended : ∀ event ∈ past, ∀ handId result, event ≠ .handEnded handId result

theorem Told.follows {events : List EngineEvent} {s : GameState n} (h : Told events s)
    {sink : BroadcastSink n} (hclear : Clear sink) : Follows (sink.onEvents events) s := by
  have htracks := hclear.tracks.onEvents h.not_ended
  rw [List.nil_append] at htracks
  exact ⟨fun j => (htracks.mem_folded j).trans (h.folded_iff j),
    htracks.boardCards_eq.trans h.cards_eq⟩

/-- The seat that acts folds if it says so, and stays in otherwise. -/
theorem performAction_folded_iff {s : GameState n} {seat : Fin n}
    (hactive : (s.players seat).status = .active) (action : Action) :
    ((Engine.performAction s seat action).1.players seat).status = .folded ↔ action = .fold := by
  cases action with
  | fold => simp [Engine.performAction]
  | check => simp [Engine.performAction, hactive]
  | call =>
    simp only [Engine.performAction, setPlayer_self, PlayerState.putAllIn_status, hactive]
    split <;> simp
  | raise amount => simp [Engine.performAction, hactive]
  | allIn =>
    simp only [Engine.performAction]
    split_ifs <;> simp

/-- Whatever it does, it does not leave the table. -/
theorem performAction_not_out {s : GameState n} {seat : Fin n}
    (hactive : (s.players seat).status = .active) (action : Action) :
    ((Engine.performAction s seat action).1.players seat).status ≠ .out := by
  cases action with
  | fold => simp [Engine.performAction]
  | check => simp [Engine.performAction, hactive]
  | call =>
    simp only [Engine.performAction, setPlayer_self, PlayerState.putAllIn_status, hactive]
    split <;> simp
  | raise amount => simp [Engine.performAction, hactive]
  | allIn =>
    simp only [Engine.performAction]
    split_ifs <;> simp

theorem hasFolded_append {past later : List EngineEvent} {seat : ℕ} :
    HasFolded (past ++ later) seat ↔ HasFolded past seat ∨ HasFolded later seat := by
  simp only [HasFolded, List.mem_append, exists_or]

theorem cardsDealt_eq_zero {events : List EngineEvent}
    (h : ∀ event ∈ events, event.board? = none) : cardsDealt events = 0 := by
  induction events with
  | nil => rfl
  | cons event events ih =>
    have hrest := ih fun later hlater => h later (List.mem_cons_of_mem _ hlater)
    cases event with
    | boardDealt street cards => cases h _ List.mem_cons_self
    | _ => exact hrest

theorem not_hasFolded {events : List EngineEvent} (h : ∀ event ∈ events, event.actedSeat? = none)
    (seat : ℕ) : ¬ HasFolded events seat := by
  rintro ⟨potTotal, hmem⟩
  cases h _ hmem

namespace Told

variable {past : List EngineEvent} {s t : GameState n}

/-- Operations that neither fold a seat nor deal cards. -/
theorem still (h : Told past s)
    (hseats : ∀ j, (t.players j).status = (s.players j).status ∧
      (t.players j).holeCards = (s.players j).holeCards) (hboard : t.board = s.board) :
    Told past t where
  folded_iff j := by rw [h.folded_iff, (hseats j).1]
  cards_eq := by rw [h.cards_eq, hboard]
  not_out j := by
    rw [(hseats j).1]
    exact h.not_out j
  holeCards j := by
    rw [(hseats j).2]
    exact h.holeCards j
  not_ended := h.not_ended

theorem answer {d : Decision n} (h : Told past d.state)
    (hactive : (d.state.players d.seat).status = .active) (raw : Action) :
    Told (past ++ eventsOf (d.answer raw).1) (d.acted raw) := by
  have hbefore := performAction_allIn d.state d.seat (Engine.normalizeAction d.state d.seat raw)
  -- what an answer reports before itself is an all-in at most
  have hquiet : ∀ event ∈ (Engine.performAction d.state d.seat
      (Engine.normalizeAction d.state d.seat raw)).2.2,
      event.actedSeat? = none ∧ event.board? = none := by
    intro event hevent
    obtain ⟨seat, total, rfl⟩ := hbefore event hevent
    exact ⟨rfl, rfl⟩
  have hothers : ∀ j, j ≠ d.seat → (d.acted raw).players j = d.state.players j :=
    fun j hj => performAction_players_of_ne hj _
  rw [eventsOf_answer, ← List.append_assoc]
  refine ⟨fun j => ?_, ?_, fun j => ?_, fun j => ?_, ?_⟩
  · rw [hasFolded_append_singleton, hasFolded_append, h.folded_iff j,
      or_iff_left (not_hasFolded (fun event hevent => (hquiet event hevent).1) j)]
    by_cases hj : j = d.seat
    · subst hj
      rw [Decision.acted, performAction_folded_iff hactive]
      simp [hactive]
    · have hne : ¬ (d.seat : ℕ) = j := fun heq => hj (Fin.ext heq.symm)
      rw [hothers j hj]
      simp [hne]
  · rw [cardsDealt_append, cardsDealt_append, h.cards_eq,
      cardsDealt_eq_zero fun event hevent => (hquiet event hevent).2]
    exact congrArg List.length (performAction_board _ _ _).symm
  · by_cases hj : j = d.seat
    · subst hj
      exact performAction_not_out hactive _
    · rw [hothers j hj]
      exact h.not_out j
  · rw [Decision.acted, performAction_holeCards]
    exact h.holeCards j
  · refine List.forall_mem_append.mpr ⟨List.forall_mem_append.mpr ⟨h.not_ended, ?_⟩, ?_⟩
    · intro event hevent handId result
      obtain ⟨seat, total, rfl⟩ := hbefore event hevent
      simp
    · intro event hevent handId result
      rw [List.mem_singleton.mp hevent]
      simp

/-- Every operation of the engine. -/
theorem step {ok : GameState n → Prop} {past outputs : List (Output n)}
    (h : Told (eventsOf past) s) (hstep : Passes e ok s outputs t) :
    Told (eventsOf (past ++ outputs)) t := by
  rw [eventsOf_append]
  cases hstep with
  | acted d obs hactive raw hok => exact h.answer hactive raw
  | asked | collected | streetBegun =>
    rw [eventsOf_nil, List.append_nil]
    exact h.still (fun _ => ⟨rfl, rfl⟩) rfl
  | @boardDealt _ _ street _ cards hnow hnext told htold =>
    have hevents : eventsOf (.event (.boardDealt street cards) :: told) =
        [.boardDealt street cards] := by
      rcases htold with rfl | rfl <;> rfl
    rw [hevents]
    refine ⟨fun j => ?_, ?_, h.not_out, h.holeCards, ?_⟩
    · rw [hasFolded_append_singleton]
      simpa using h.folded_iff j
    · rw [cardsDealt_append, h.cards_eq, GameState.extendBoard_board, List.length_append]
      rfl
    · refine List.forall_mem_append.mpr ⟨h.not_ended, fun event hevent handId result => ?_⟩
      rw [List.mem_singleton.mp hevent]
      simp

end Told

/-- Every prompt so far was made in a state that the events before it tell. -/
def PromptsTold (past : List (Output n)) : Prop :=
  ∀ before d obs after, past = before ++ .prompt d obs :: after → Told (eventsOf before) d.state

/-- A run of operations is told by its events, at each prompt and at its end. -/
theorem told_of_passage {ok : GameState n → Prop} {s t : GameState n}
    {past outputs : List (Output n)} (h : Passage e ok s outputs t) (htold : Told (eventsOf past) s)
    (hprompts : PromptsTold past) :
    Told (eventsOf (past ++ outputs)) t ∧ PromptsTold (past ++ outputs) := by
  refine h.invariant (fun past s => Told (eventsOf past) s ∧ PromptsTold past) ?_ past
    ⟨htold, hprompts⟩
  rintro past s outputs t ⟨hs, hprompts⟩ hstep
  refine ⟨hs.step hstep, fun before d obs after heq => ?_⟩
  rcases List.append_eq_append_iff.mp heq with ⟨first, rfl, hprompt⟩ | ⟨later, rfl, hprompt⟩
  · -- the prompt is one of the operation
    obtain ⟨rfl, rfl⟩ := hstep.prompt_head hprompt
    rw [List.append_nil]
    exact hs
  · cases later with
    | nil =>
      rw [List.nil_append, ← List.nil_append (_ :: after)] at hprompt
      obtain ⟨-, rfl⟩ := hstep.prompt_head hprompt.symm
      rw [List.append_nil] at hs
      exact hs
    | cons prompt later =>
      obtain ⟨rfl, -⟩ := List.cons.inj hprompt
      exact hprompts before d obs later rfl

/-- An answer takes at most one seat out of the hand. -/
theorem playersStillIn_le (d : Decision n) (raw : Action) :
    d.state.playersStillIn ≤ (d.acted raw).playersStillIn + 1 := by
  have hsub : (Finset.univ.filter fun i => (d.state.players i).stillIn) ⊆
      insert d.seat (Finset.univ.filter fun i => ((d.acted raw).players i).stillIn) := by
    intro i hi
    simp only [Finset.mem_filter, Finset.mem_univ, true_and, Finset.mem_insert] at hi ⊢
    by_cases hseat : i = d.seat
    · exact Or.inl hseat
    · rw [Decision.acted, performAction_players_of_ne hseat]
      exact Or.inr hi
  exact (Finset.card_le_card hsub).trans (Finset.card_insert_le _ _)

/-- While no answer leaves a single seat in, two seats stay in. -/
theorem contested_of_passage {s t : GameState n} {outputs : List (Output n)}
    (h : Passage e GameState.Contested s outputs t) (hs : 2 ≤ s.playersStillIn) :
    2 ≤ t.playersStillIn := by
  refine h.invariant (fun _ s => 2 ≤ s.playersStillIn) ?_ [] hs
  intro past s outputs t hs hstep
  cases hstep with
  | acted d obs hactive raw hok =>
    have := playersStillIn_le d raw
    have : (d.acted raw).playersStillIn ≠ 1 := hok
    omega
  | asked | collected | streetBegun | boardDealt => exact hs

/-! ## The end of a hand -/

/-- A sink that follows a state sees a showdown if the board is complete and two seats are
still in. -/
theorem Follows.showdown_iff {sink : BroadcastSink n} {s : GameState n} (h : Follows sink s)
    (hout : ∀ j, (s.players j).status ≠ .out) :
    sink.showdown ↔ 5 ≤ s.board.length ∧ 2 ≤ s.playersStillIn := by
  have hfolded : ∀ j : Fin n, j.val ∉ sink.folded ↔ (s.players j).stillIn := by
    intro j
    have hj := hout j
    rw [h.folded_iff j, PlayerState.stillIn]
    cases hstatus : (s.players j).status <;> simp_all
  simp only [BroadcastSink.showdown, h.boardCards_eq, hfolded, Bool.and_eq_true, decide_eq_true_eq,
    GameState.playersStillIn]

theorem filteredOutcome_seat (sink : BroadcastSink n) (recipient : Option ℕ) (o : SeatOutcome) :
    (sink.filteredOutcome recipient o).seat = o.seat := by
  rw [BroadcastSink.filteredOutcome]
  split <;> rfl

/-- The masked result of a hand that ended in the state `t`, if the sink sees a showdown
exactly when the engine resolved one. -/
theorem revealsTo_filteredHandEnd {sink : BroadcastSink n} {t : GameState n}
    {past : List EngineEvent} {award : Option Award} {result : HandResult}
    {players : Fin n → PlayerState}
    (hfollows : Follows sink t) (htold : Told past t) (hends : EndsIn t award result players)
    (i : Fin n) (hshow : 2 ≤ n → (sink.showdown ↔ award = some .showdown)) :
    RevealsTo i players award (sink.filteredHandEnd (some i) result) := by
  have hall : ((List.finRange n).filter fun j => (t.players j).status ≠ .out) =
      List.finRange n := by
    rw [List.filter_eq_self]
    simpa using fun j => htold.not_out j
  have hseats := hends.seats_eq
  rw [hall] at hseats
  have hmasked : ∀ o ∈ (sink.filteredHandEnd (some i) result).seats, ∀ j : Fin n, o.seat = j →
      (o.holeCards.isSome ↔ j = i ∨ (award = some .showdown ∧ (players j).status ≠ .folded)) ∧
        (o.holeCards.isSome → o.holeCards = (players j).holeCards) := by
    intro o ho j hj
    obtain ⟨o', ho', rfl⟩ := List.mem_map.mp ho
    have hmem : (o'.seat, o'.holeCards) ∈
        (List.finRange n).map fun j => (j.val, (t.players j).holeCards) := by
      rw [← hseats]
      exact List.mem_map_of_mem ho'
    obtain ⟨k, -, hk⟩ := List.mem_map.mp hmem
    obtain ⟨hseat, hcards⟩ := Prod.mk.inj hk
    rw [filteredOutcome_seat, ← hseat] at hj
    obtain rfl : k = j := Fin.ext hj
    have hsome : (players k).holeCards.isSome := by
      rw [hends.holeCards_eq, Option.isSome_iff_ne_none]
      exact htold.holeCards k
    have hvisible : ¬ (¬ some i.val = some o'.seat ∧
        ¬ (sink.showdown && decide (o'.seat ∉ sink.folded)) = true) ↔
        k = i ∨ (award = some .showdown ∧ (players k).status ≠ .folded) := by
      rw [← hseat, not_and_or, not_not, not_not, Option.some.injEq, Fin.val_inj, eq_comm]
      by_cases hself : k = i
      · simp [hself]
      · -- two seats, so that the sink and the engine agree on the showdown
        have hn : 2 ≤ n := by
          have := Fin.val_ne_of_ne hself
          omega
        rw [Bool.and_eq_true, decide_eq_true_eq, hshow hn, hfollows.folded_iff, hends.status_eq]
    rw [BroadcastSink.filteredOutcome]
    by_cases hmask : ¬ some i.val = some o'.seat ∧
        ¬ (sink.showdown && decide (o'.seat ∉ sink.folded)) = true
    · rw [if_pos hmask]
      have hhidden := mt hvisible.mpr (not_not.mpr hmask)
      simp [hhidden]
    · rw [if_neg hmask]
      have hcards' : o'.holeCards = (players k).holeCards := by
        rw [← hcards, hends.holeCards_eq]
      simp [hcards', hsome, hvisible.mp hmask]
  refine ⟨?_, fun o ho j hj => (hmasked o ho j hj).1, fun o ho j hj => (hmasked o ho j hj).2⟩
  have hnumbers := congrArg (List.map Prod.fst) hseats
  rw [List.map_map, List.map_map] at hnumbers
  rw [BroadcastSink.filteredHandEnd, List.map_map]
  refine Eq.trans (List.map_congr_left fun o _ => ?_) hnumbers
  exact filteredOutcome_seat sink (some i) o

section Hand

variable {handId : ℕ} {startingStacks : List ℕ} {dealer : ℕ} {deck deck' : Deck}
  {s : GameState startingStacks.length} {canonicalBb : ℕ} {events : List EngineEvent}

/-- The setup of a hand without dead hands, at a table of seats with chips, folds nobody and
leaves no seat without cards. -/
theorem told_of_setupHand (hpos : ∀ i, 0 < startingStacks.get i) (hdeck : deck.cursor ≤ 52)
    (deckSeed : ℕ)
    (h : setupHand e deck (e.initState handId startingStacks dealer) none =
      some (s, deck', canonicalBb, events)) :
    Told (.handStarted handId dealer deckSeed :: events) s ∧ ∀ i, (s.players i).stillIn := by
  have hopened := opened_of_setupHand hdeck h
  have hquiet : ∀ event ∈ EngineEvent.handStarted handId dealer deckSeed :: events,
      event.actedSeat? = none ∧ event.board? = none ∧
        ∀ handId result, event ≠ .handEnded handId result := by
    refine List.forall_mem_cons.mpr ⟨⟨rfl, rfl, by simp⟩, fun event hevent => ?_⟩
    rcases setupHand_reports h event hevent with ⟨seat, total, rfl⟩ | ⟨seat, cards, rfl⟩ <;>
      exact ⟨rfl, rfl, by simp⟩
  have hin : ∀ i, (s.players i).stillIn := by
    intro i
    rw [hopened.stillIn_eq (fundedSeats_pos (hpos i)), deadHand, Bool.not_false, Bool.and_true]
    simpa using hpos i
  have hstatus : ∀ i, (s.players i).status ≠ .folded ∧ (s.players i).status ≠ .out := by
    intro i
    have hi := hin i
    rw [PlayerState.stillIn] at hi
    cases hstatus : (s.players i).status <;> simp_all
  exact ⟨{
    folded_iff := fun j => iff_of_false
      (not_hasFolded (fun event hevent => (hquiet event hevent).1) j) (hstatus j).1
    cards_eq := by
      rw [cardsDealt_eq_zero fun event hevent => (hquiet event hevent).2.1, hopened.board_eq]
      rfl
    not_out := fun j => (hstatus j).2
    holeCards := fun j => hopened.holeCards_ne j (hin j)
    not_ended := fun event hevent => (hquiet event hevent).2.2 }, hin⟩

end Hand

/-- In a hand of a table, without dead hands and with at least the big blind at every seat,
the sink follows the engine, and the end of the hand shows each seat what the engine's
showdown reveals, whatever hands the sink was used for before. -/
theorem reveal_agrees (e : Engine) (handId deckSeed : ℕ) (order : Fin 52 → Card)
    (startingStacks : List ℕ) (dealer : ℕ) (answers : List Action) (tableId : ℕ)
    (links : Fin startingStacks.length → SeatLink) (earlier : List (List EngineEvent))
    (i : Fin startingStacks.length) (hearlier : ∀ hand ∈ earlier, CompleteHand hand)
    (hblind : 0 < e.rules.bigBlind) (hstacks : ∀ i, e.rules.bigBlind ≤ startingStacks.get i) :
    Reveals e handId deckSeed order startingStacks dealer answers
      ((BroadcastSink.new tableId links).onEvents earlier.flatten) i := by
  intro outputs result players chipDeltas rest hrun
  have hclear := clear_of_hands hearlier (clear_new tableId links)
  generalize (BroadcastSink.new tableId links).onEvents earlier.flatten = sink at hclear
  obtain ⟨s, deck, canonicalBb, events, later, hsetup, rfl, haward⟩ := runHand_passes hrun
  obtain ⟨t, hpassage, hends, hpath⟩ := haward.passage
  obtain ⟨htold, hin⟩ := told_of_setupHand (fun i => hblind.trans_le (hstacks i))
    (Nat.zero_le 52) deckSeed hsetup
  set setup : List (Output startingStacks.length) :=
    .event (.handStarted handId dealer deckSeed) :: events.map .event with hsetupOutputs
  have hevents : eventsOf setup = .handStarted handId dealer deckSeed :: events := by
    rw [hsetupOutputs, eventsOf_cons_event, eventsOf_events]
  have hprompts : PromptsTold setup := by
    intro before d obs after heq
    have hmem : (d, obs) ∈ promptsOf setup := by
      rw [heq, promptsOf_append, promptsOf_cons_prompt]
      simp
    simp [hsetupOutputs] at hmem
  rw [← hevents] at htold
  obtain ⟨htoldEnd, hpromptsEnd⟩ := told_of_passage hpassage htold hprompts
  have hfollows := htoldEnd.follows hclear
  refine ⟨fun before d obs after heq => ?_, ?_⟩
  · -- the last output is no prompt
    obtain rfl | ⟨after', last, rfl⟩ := List.eq_nil_or_concat after
    · cases (List.append_inj' heq rfl).2
    · rw [List.concat_eq_append, ← List.cons_append, ← List.append_assoc] at heq
      exact (hpromptsEnd before d obs after' (List.append_inj' heq rfl).1).follows hclear
  · rw [eventsOf_append, onEvents_append]
    refine ⟨((sink.onEvents (eventsOf (setup ++ later))).links i).current.sent, _, ?_,
      revealsTo_filteredHandEnd hfollows htoldEnd hends i fun hn => ?_⟩
    · rw [← onEvents_tableId sink (eventsOf (setup ++ later))]
      rfl
    · rw [hfollows.showdown_iff htoldEnd.not_out]
      rcases hpath with ⟨haward, hcontested⟩ | ⟨haward, hlone⟩
      · -- a showdown is of a full board, and nobody is left alone on the way there
        have hboard := hends.full haward
        have hmany : s.playersStillIn = startingStacks.length := by
          rw [GameState.playersStillIn, Finset.filter_true_of_mem fun i _ => hin i,
            Finset.card_univ, Fintype.card_fin]
        have := contested_of_passage hcontested (by omega)
        simp only [haward, iff_true]
        omega
      · rw [haward]
        refine iff_of_false ?_ (by simp)
        rintro ⟨hboard, hmany⟩
        rcases hlone with hone | rfl
        · omega
        · rw [(opened_of_setupHand (Nat.zero_le 52) hsetup).board_eq] at hboard
          exact absurd hboard (by simp)

theorem completeHand_of_isFinished {handId deckSeed : ℕ} {order : Fin 52 → Card}
    {startingStacks : List ℕ} {dealer : ℕ} {answers : List Action}
    (h : (runHand e handId deckSeed order startingStacks dealer none answers).2.isFinished) :
    CompleteHand
      (eventsOf (runHand e handId deckSeed order startingStacks dealer none answers).1) := by
  rcases hout : (runHand e handId deckSeed order startingStacks dealer none answers).2 with
    ⟨result, players, chipDeltas, rest⟩ | _ | _ | _
  · exact ⟨e, handId, deckSeed, order, startingStacks, dealer, answers, result, players,
      chipDeltas, rest, hout, rfl⟩
  all_goals
    rw [hout] at h
    cases h

/-- One seat folds and the other two go all-in, after a hand on the same sink in which the small
blind was folded: every seat is shown the cards of the showdown. -/
theorem reveal_agrees_again :
    (runHand (shortBlindEngine 0) 2 0 (fun i => ⟨i⟩) [100, 100, 100] 0 none
        [.fold, .allIn, .allIn]).2.isFinished ∧
      handAward (shortBlindEngine 0) 2 (fun i => ⟨i⟩) [100, 100, 100] 0 none
        [.fold, .allIn, .allIn] = some .showdown ∧
      ∀ i, Reveals (shortBlindEngine 0) 2 0 (fun i => ⟨i⟩) [100, 100, 100] 0
        [.fold, .allIn, .allIn]
        ((BroadcastSink.new 1 fun _ => freshLinks 0).onEvents
          [eventsOf (shortBlindHand 1).1].flatten) i := by
  refine ⟨by decide +kernel, by decide +kernel, fun i => reveal_agrees (shortBlindEngine 0) 2 0
    (fun i => ⟨i⟩) [100, 100, 100] 0 [.fold, .allIn, .allIn] 1 (fun _ => freshLinks 0) _ i
    ?_ (by decide) (by decide)⟩
  intro hand hhand
  rw [List.mem_singleton.mp hhand]
  exact completeHand_of_isFinished (by decide +kernel)

end VibePoker.Server
