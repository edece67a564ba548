import VibePoker.Game.FaceDown

/-!
# What a seat is shown depends on its own cards and the board

Two hands that differ in their decks ask the same seats the same questions. A seat that was
dealt the same hole cards in both, and looks at the same board, is shown the same observation.

## Main definitions

* `Noninterference` — two hands that differ in their cards only
* `Shows` — observations that show given hole cards and the board dealt so far

## Main results

* `observation_noninterference` — in the engine's loop and in the stepper
-/

namespace VibePoker.Game

open VibePoker.Core VibePoker.Math

variable {n : ℕ} {e : Engine}

/-! ## The statement -/

/-- The hole cards that an event reports for a seat. -/
def EngineEvent.holeCards? (seat : ℕ) : EngineEvent → Option (Card × Card)
  | .holeCardsDealt dealt cards => if dealt = seat then some cards else none
  | _ => none

/-- The hole cards that a run deals to a seat. -/
def holeCardsOf (outputs : List (Output n)) (seat : ℕ) : List (Card × Card) :=
  (eventsOf outputs).filterMap (EngineEvent.holeCards? seat)

/-- Cards aside the hands are the same up to their awards, and each seat that is asked has
been dealt the same cards or can tell the boards apart if it is shown something else. -/
structure Noninterference (hand hand' : List (Output n) × HandOutcome n) : Prop where
  betting : faceDownHand hand' = faceDownHand hand
  shown : ∀ before d obs after, hand.1 = before ++ .prompt d obs :: after →
    ∃ before' d' obs' after', hand'.1 = before' ++ .prompt d' obs' :: after' ∧
      before'.length = before.length ∧ d'.seat = d.seat ∧
      (holeCardsOf before' d.seat = holeCardsOf before d.seat →
        boardsOf before' = boardsOf before → obs' = obs)

/-! ## Observations show what was dealt -/

@[simp] theorem holeCardsOf_append (outputs later : List (Output n)) (seat : ℕ) :
    holeCardsOf (outputs ++ later) seat = holeCardsOf outputs seat ++ holeCardsOf later seat := by
  rw [holeCardsOf, eventsOf_append, List.filterMap_append]
  rfl

/-- The board cards that a run deals. -/
def boardOf (outputs : List (Output n)) : List Card := ((boardsOf outputs).map Prod.snd).flatten

@[simp] theorem boardOf_append (outputs later : List (Output n)) :
    boardOf (outputs ++ later) = boardOf outputs ++ boardOf later := by
  rw [boardOf, boardsOf_append, List.map_append, List.flatten_append]
  rfl

/-- Each prompt shows the hole cards of its seat, and the board with the cards dealt since;
no hole cards are dealt. -/
def Shows (holeCards : Fin n → Option (Card × Card)) (board : List Card)
    (outputs : List (Output n)) : Prop :=
  ∀ before d obs after, outputs = before ++ .prompt d obs :: after →
    holeCards d.seat = some obs.holeCards ∧ obs.board = board ++ boardOf before ∧
      ∀ seat, holeCardsOf before seat = []

/-- A prompt is made by the first or by the second of two runs. -/
theorem split_prompt {outputs later before after : List (Output n)} {d : Decision n}
    {obs : Observation} (h : outputs ++ later = before ++ .prompt d obs :: after) :
    (∃ rest, outputs = before ++ .prompt d obs :: rest) ∨
      ∃ first, before = outputs ++ first ∧ later = first ++ .prompt d obs :: after := by
  rcases List.append_eq_append_iff.mp h with ⟨first, rfl, hprompt⟩ | ⟨rest, rfl, hprompt⟩
  · exact Or.inr ⟨first, rfl, hprompt⟩
  · cases rest with
    | nil => exact Or.inr ⟨[], by rw [List.append_nil, List.append_nil], hprompt.symm⟩
    | cons prompt rest =>
      obtain ⟨rfl, -⟩ := List.cons.inj hprompt
      exact Or.inl ⟨rest, rfl⟩

namespace Shows

variable {holeCards : Fin n → Option (Card × Card)} {board : List Card}
  {outputs later : List (Output n)}

theorem of_no_prompts (h : promptsOf outputs = []) : Shows holeCards board outputs := by
  rintro before d obs after rfl
  simp at h

theorem append (h : Shows holeCards board outputs) (hnone : ∀ seat, holeCardsOf outputs seat = [])
    (hlater : Shows holeCards (board ++ boardOf outputs) later) :
    Shows holeCards board (outputs ++ later) := by
  intro before d obs after heq
  rcases split_prompt heq with ⟨rest, hprompt⟩ | ⟨first, rfl, hprompt⟩
  · exact h before d obs rest hprompt
  · obtain ⟨hcards, hboard, hdealt⟩ := hlater _ _ _ _ hprompt
    refine ⟨hcards, by rw [hboard, boardOf_append, List.append_assoc], fun seat => ?_⟩
    rw [holeCardsOf_append, hnone, hdealt]
    rfl

/-- A prompt in front shows the board as it is. -/
theorem cons_prompt {d : Decision n} {obs : Observation}
    (hcards : holeCards d.seat = some obs.holeCards) (hboard : obs.board = board)
    (hlater : Shows holeCards board later) : Shows holeCards board (.prompt d obs :: later) := by
  intro before d' obs' after heq
  cases before with
  | nil =>
    obtain ⟨⟨rfl, rfl⟩, -⟩ : (d = d' ∧ obs = obs') ∧ later = after := by simpa using heq
    exact ⟨hcards, by rw [hboard]; exact (List.append_nil _).symm, fun _ => rfl⟩
  | cons first before =>
    obtain ⟨rfl, hrest⟩ := List.cons.inj heq
    exact hlater before d' obs' after hrest

end Shows

/-- An answer deals no cards. -/
theorem holeCardsOf_answer (d : Decision n) (raw : Action) (seat : ℕ) :
    holeCardsOf (d.answer raw).1 seat = [] := by
  rw [holeCardsOf, eventsOf_answer, List.filterMap_eq_nil_iff]
  intro event hevent
  rcases List.mem_append.mp hevent with hbefore | htaken
  · obtain ⟨seat, total, rfl⟩ := performAction_allIn _ _ _ event hbefore
    rfl
  · rw [List.mem_singleton.mp htaken]
    rfl

/-- A betting round that shows the cards of the state it started in, and keeps them. -/
structure RoundShows (holeCards : Fin n → Option (Card × Card)) (board : List Card)
    (round : List (Output n) × RoundOutcome n) : Prop where
  outputs : Shows holeCards board round.1
  boards : boardOf round.1 = []
  dealt : ∀ seat, holeCardsOf round.1 seat = []
  ended : ∀ t rest, round.2 = .ended t rest →
    t.board = board ∧ ∀ i, (t.players i).holeCards = holeCards i

theorem RoundShows.nil {holeCards : Fin n → Option (Card × Card)} {board : List Card}
    {outcome : RoundOutcome n}
    (hended : ∀ t rest, outcome = .ended t rest →
      t.board = board ∧ ∀ i, (t.players i).holeCards = holeCards i) :
    RoundShows holeCards board ([], outcome) where
  outputs := .of_no_prompts rfl
  boards := rfl
  dealt _ := rfl
  ended := hended

theorem observation_shows {d : Decision n} {obs : Observation} (h : d.observation e = some obs) :
    (d.state.players d.seat).holeCards = some obs.holeCards ∧ obs.board = d.state.board := by
  obtain ⟨hole, hcards, rfl⟩ := Option.map_eq_some_iff.mp h
  exact ⟨hcards, rfl⟩

/-- A betting round shows the cards of the state that it starts in. -/
theorem runBettingRound_shows (answers : List Action) (s : GameState n)
    (hasResponded : Fin n → Bool) (current : Fin n) :
    RoundShows (fun i => (s.players i).holeCards) s.board
      (runBettingRound e answers s hasResponded current) := by
  refine runBettingRound_cases (fun _ s _ _ round =>
    RoundShows (fun i => (s.players i).holeCards) s.board round) ?_ ?_ ?_ ?_ answers s _ current
  · intro answers s hasResponded current hseek
    refine .nil fun t rest h => ?_
    obtain ⟨rfl, -⟩ := RoundOutcome.ended.inj h
    exact ⟨rfl, fun _ => rfl⟩
  · exact fun answers s hasResponded current seat hseek hobs => .nil (fun t rest h => by cases h)
  · intro s hasResponded current seat obs hseek hobs
    obtain ⟨hcards, hboard⟩ := observation_shows hobs
    exact ⟨.cons_prompt hcards hboard (.of_no_prompts rfl), rfl, fun _ => rfl,
      fun t rest h => by cases h⟩
  · intro raw answers s hasResponded current seat obs hseek hobs ih
    obtain ⟨hcards, hboard⟩ := observation_shows hobs
    have hnone := holeCardsOf_answer ⟨s.setActionOn (some seat), hasResponded, seat⟩ raw
    have hquiet : boardOf (Decision.answer ⟨s.setActionOn (some seat), hasResponded, seat⟩ raw).1 =
        [] := congrArg (fun boards => (boards.map Prod.snd).flatten)
      (boardsOf_answer ⟨s.setActionOn (some seat), hasResponded, seat⟩ obs raw)
    -- the rest of the round shows the cards of the state after the answer
    have hrest : RoundShows (fun i => (s.players i).holeCards) s.board
        ((Decision.answer ⟨s.setActionOn (some seat), hasResponded, seat⟩ raw).2.goOn e
          answers) := by
      rcases Decision.answer_cases ⟨s.setActionOn (some seat), hasResponded, seat⟩ raw with
        ⟨-, winner, -, hnext⟩ | ⟨-, -, hnext⟩ | ⟨-, hnext⟩
      · rw [hnext]
        exact .nil fun t rest h => by cases h
      · rw [hnext]
        exact .nil fun t rest h => by cases h
      · have hlater := ih _ _ _ hnext
        simp only [Decision.acted, performAction_holeCards, performAction_board] at hlater
        rw [hnext]
        exact hlater
    refine ⟨?_, ?_, fun i => ?_, hrest.ended⟩
    · refine .cons_prompt hcards hboard (.append (.of_no_prompts (promptsOf_answer _ raw)) hnone ?_)
      rw [hquiet, List.append_nil]
      exact hrest.outputs
    · rw [List.cons_append]
      exact (boardOf_append _ _).trans (by rw [hquiet, hrest.boards]; rfl)
    · rw [List.cons_append]
      exact (holeCardsOf_append _ _ i).trans (by rw [hnone, hrest.dealt]; rfl)

/-- A hand that shows the cards of the state it goes on from. -/
theorem afterRound_shows {holeCards : Fin n → Option (Card × Card)} {board : List Card}
    {round : List (Output n) × RoundOutcome n}
    {proceed : GameState n → List Action → List (Output n) × HandOutcome n}
    (hround : RoundShows holeCards board round)
    (hproceed : ∀ t answers, t.board = board → (∀ i, (t.players i).holeCards = holeCards i) →
      Shows holeCards board (proceed t answers).1) :
    Shows holeCards board (afterRound round proceed).1 := by
  obtain ⟨outputs, outcome⟩ := round
  cases outcome with
  | ended t rest =>
    obtain ⟨hboard, hcards⟩ := hround.ended t rest rfl
    refine hround.outputs.append hround.dealt ?_
    rw [hround.boards, List.append_nil]
    exact hproceed _ _ hboard hcards
  | _ => exact hround.outputs

theorem runPostflop_shows (streets : List (Street × ℕ)) (deck : Deck) (s : GameState n)
    (answers : List Action) :
    Shows (fun i => (s.players i).holeCards) s.board (runPostflop e streets deck s answers).1 := by
  induction streets generalizing deck s answers with
  | nil => exact .of_no_prompts (promptsOf_events _)
  | cons next streets ih =>
    obtain ⟨street, count⟩ := next
    rw [runPostflop]
    split
    · exact .of_no_prompts (promptsOf_events _)
    · rcases hdeal : Engine.dealBoardCards (e.beginStreet s street) deck count street with
        _ | ⟨t, deck', event⟩
      · exact .of_no_prompts rfl
      · obtain ⟨cards, rfl, rfl, rfl⟩ := dealBoardCards_board hdeal
        refine @Shows.append n _ _
          [.event (.boardDealt street cards), .notify (.boardDealt street cards)] _
          (.of_no_prompts rfl) (fun _ => rfl) ?_
        have hboard : boardOf [Output.event (.boardDealt street cards),
            (.notify (.boardDealt street cards) : Output n)] = cards := List.append_nil cards
        rw [hboard]
        cases Engine.firstToAct ((e.beginStreet s street).extendBoard cards) with
        | none => exact ih deck' (collectStreetBets _) answers
        | some first =>
          refine afterRound_shows (runBettingRound_shows answers
            ((e.beginStreet s street).extendBoard cards) (fun _ => false) first) ?_
          intro t answers hboard hcards
          have hlater := ih deck' t answers
          simp only [hboard, hcards] at hlater
          exact hlater

/-! ## Whole hands -/

/-- The hole cards that are dealt are reported to their seats. -/
theorem dealHoleCards_reports {seats : List (Fin n)} (hnodup : seats.Nodup)
    {s s' : GameState n} {deck deck' : Deck} {events : List EngineEvent}
    (hdeal : Engine.dealHoleCards seats s deck = some (s', deck', events))
    (hnone : ∀ i ∈ seats, (s.players i).holeCards = none) (i : Fin n) :
    (s'.players i).holeCards.toList =
      (s.players i).holeCards.toList ++ events.filterMap (EngineEvent.holeCards? i) := by
  induction seats generalizing s deck events with
  | nil =>
    obtain ⟨rfl, -, rfl⟩ : s = s' ∧ deck = deck' ∧ [] = events := by
      simpa [Engine.dealHoleCards] using hdeal
    exact (List.append_nil _).symm
  | cons seat seats ih =>
    obtain ⟨hseat, hnodup⟩ := List.nodup_cons.mp hnodup
    rcases dealHoleCards_cons hdeal with
      ⟨first, _, second, _, later, -, -, -, hrest, rfl⟩ | ⟨-, hrest⟩
    · have hkept : ∀ j ∈ seats, ((s.setPlayer seat { s.players seat with
          holeCards := some (first, second) }).players j).holeCards = none := by
        intro j hj
        have hne : j ≠ seat := fun h => hseat (h ▸ hj)
        rw [setPlayer_of_ne s _ hne]
        exact hnone j (List.mem_cons_of_mem _ hj)
      rw [ih hnodup hrest hkept]
      by_cases hi : i = seat
      · subst hi
        rw [setPlayer_self, hnone i List.mem_cons_self]
        simp [EngineEvent.holeCards?]
      · have hne : ¬ (seat : ℕ) = i := fun h => hi (Fin.ext h.symm)
        rw [setPlayer_of_ne s _ hi]
        simp [EngineEvent.holeCards?, hne]
    · exact ih hnodup hrest fun j hj => hnone j (List.mem_cons_of_mem _ hj)

section Hand

variable {handId deckSeed : ℕ} {order : Fin 52 → Card} {startingStacks : List ℕ} {dealer : ℕ}
  {seatKinds : Option (List SeatKind)} {answers : List Action}

/-- The setup reports the hole cards that it deals, and leaves the board empty. -/
theorem setupHand_reports_holeCards {deck deck' : Deck} {s : GameState startingStacks.length}
    {canonicalBb : ℕ} {events : List EngineEvent} (hdeck : deck.cursor ≤ 52)
    (h : setupHand e deck (e.initState handId startingStacks dealer) seatKinds =
      some (s, deck', canonicalBb, events)) :
    s.board = [] ∧ ∀ i : Fin startingStacks.length,
      events.filterMap (EngineEvent.holeCards? i) = (s.players i).holeCards.toList := by
  refine ⟨(opened_of_setupHand hdeck h).board_eq,
    fun i => ?_⟩
  obtain ⟨s₁, blinds, s₂, dealt, hpost, hdeal, hfold, -, rfl⟩ := setupHand_cases h
  have hforced := postBlinds_forced hpost
  obtain ⟨-, hfolded⟩ := foldDeadHands_eq_some hfold
  have hnone : ∀ i, ((antesPosted e (e.initState handId startingStacks dealer)).2 ++
      blinds).filterMap (EngineEvent.holeCards? i) = [] := by
    refine fun i => List.filterMap_eq_nil_iff.mpr fun event hevent => ?_
    obtain ⟨seat, total, rfl⟩ := forced_allIn hpost event hevent
    rfl
  have hcards : ∀ i, (s₁.players i).holeCards = none := by
    intro i
    rw [hforced]
    exact forcedPlayer_holeCards i
  have hreports := dealHoleCards_reports (List.nodup_finRange _) hdeal (fun i _ => hcards i) i
  rw [hcards i, Option.toList_none, List.nil_append] at hreports
  rw [List.filterMap_append, hnone, List.nil_append, ← hreports, hfolded i]

/-- Each prompt shows the hole cards and the board that were reported before it. -/
def ShowsDealt (outputs : List (Output n)) : Prop :=
  ∀ before d obs after, outputs = before ++ .prompt d obs :: after →
    holeCardsOf before d.seat = [obs.holeCards] ∧ obs.board = boardOf before

theorem not_prompt_of_quiet {outputs before after : List (Output n)} {d : Decision n}
    {obs : Observation} (hquiet : promptsOf outputs = []) :
    outputs ≠ before ++ .prompt d obs :: after := by
  rintro rfl
  simp at hquiet

/-- After a setup that reports the hole cards, and with the report of the end. -/
theorem Shows.reportEnd {holeCards : Fin n → Option (Card × Card)}
    {outputs setup : List (Output n)} (h : Shows holeCards [] outputs)
    (hsetup : promptsOf setup = [])
    (hcards : ∀ i : Fin n, holeCardsOf setup i = (holeCards i).toList)
    (hboard : boardOf setup = []) (outcome : HandOutcome n) :
    ShowsDealt (reportEnd (setup ++ outputs, outcome)).1 := by
  obtain ⟨tail, htail, houtputs⟩ : ∃ tail, promptsOf tail = [] ∧
      (Game.reportEnd (setup ++ outputs, outcome)).1 = setup ++ (outputs ++ tail) := by
    cases outcome with
    | finished => exact ⟨[_], rfl, List.append_assoc _ _ _⟩
    | _ => exact ⟨[], rfl, by rw [List.append_nil]; rfl⟩
  rw [houtputs]
  intro before d obs after heq
  rcases split_prompt heq with ⟨rest, hprompt⟩ | ⟨first, rfl, hlater⟩
  · exact absurd hprompt (not_prompt_of_quiet hsetup)
  · rcases split_prompt hlater with ⟨rest, hprompt⟩ | ⟨last, -, hprompt⟩
    · obtain ⟨hshown, hsame, hnone⟩ := h _ _ _ _ hprompt
      refine ⟨?_, ?_⟩
      · rw [holeCardsOf_append, hnone, hcards, hshown]
        rfl
      · rw [hsame, boardOf_append, hboard]
    · exact absurd hprompt (not_prompt_of_quiet htail)

/-- A whole hand shows what it deals. -/
theorem runHand_shows :
    ShowsDealt (runHand e handId deckSeed order startingStacks dealer seatKinds answers).1 := by
  rw [runHand]
  rcases hsetup : setupHand e (.new order) (e.initState handId startingStacks dealer) seatKinds with
    _ | ⟨s, deck, canonicalBb, events⟩
  · have hquiet := @promptsOf_events startingStacks.length
      (.handStarted handId dealer deckSeed ::
        setupEvents e (.new order) (e.initState handId startingStacks dealer))
    exact fun before d obs after heq => absurd heq (not_prompt_of_quiet hquiet)
  · obtain ⟨hboard, hcards⟩ := setupHand_reports_holeCards (Nat.zero_le _) hsetup
    have hquiet : promptsOf (.event (.handStarted handId dealer deckSeed) ::
        events.map .event : List (Output startingStacks.length)) = [] := promptsOf_events events
    have hevents : eventsOf (.event (.handStarted handId dealer deckSeed) ::
        events.map .event : List (Output startingStacks.length)) =
        .handStarted handId dealer deckSeed :: events := by
      rw [eventsOf_cons_event, eventsOf_events]
    refine @Shows.reportEnd _ (fun i => (s.players i).holeCards) _ _ ?_ hquiet ?_ ?_ _
    · cases nextActiveAfter canonicalBb s.players with
      | none => exact .of_no_prompts rfl
      | some first =>
        have hround := runBettingRound_shows (e := e) answers s (fun _ => false) first
        rw [hboard] at hround
        refine afterRound_shows hround fun t answers hempty hkept => ?_
        have hlater := @runPostflop_shows _ e Engine.postflop deck t answers
        simp only [hempty, hkept] at hlater
        exact hlater
    · intro i
      rw [holeCardsOf, hevents, List.filterMap_cons]
      exact hcards i
    · -- the setup deals no card to the board
      have hnone : events.filterMap EngineEvent.board? = [] :=
        setupHand_filterMap hsetup (fun _ _ => rfl) fun _ _ => rfl
      rw [boardOf, boardsOf, hevents, List.filterMap_cons_none rfl, hnone]
      rfl

end Hand

/-! ## Two hands -/

theorem observation_eq {obs obs' : Observation} (h : obs'.faceDown = obs.faceDown)
    (hcards : obs'.holeCards = obs.holeCards) (hboard : obs'.board = obs.board) : obs' = obs := by
  obtain ⟨holeCards, board, pot, legalActions, players, street, position, dealer⟩ := obs
  obtain ⟨holeCards', board', pot', legalActions', players', street', position', dealer'⟩ := obs'
  simp only [Observation.faceDown, Observation.mk.injEq] at h hcards hboard ⊢
  tauto

/-- Hands that are the same with their cards face down, and show what they deal. -/
theorem Noninterference.of_faceDown {hand hand' : List (Output n) × HandOutcome n}
    (h : faceDownHand hand' = faceDownHand hand) (hshows : ShowsDealt hand.1)
    (hshows' : ShowsDealt hand'.1) : Noninterference hand hand' where
  betting := h
  shown := by
    intro before d obs after heq
    have houtputs : hand'.1.map Output.faceDown = hand.1.map Output.faceDown :=
      congrArg Prod.fst h
    rw [heq, List.map_append, List.map_cons, List.map_eq_append_iff] at houtputs
    obtain ⟨before', rest', heq', hbefore, hrest⟩ := houtputs
    obtain ⟨output, after', rfl, hprompt, -⟩ := List.map_eq_cons_iff.mp hrest
    cases output with
    | prompt d' obs' =>
      obtain ⟨hd, hobs⟩ := Output.prompt.inj hprompt
      have hseat : d'.seat = d.seat := by
        have := congrArg Decision.seat hd
        exact this
      have hlength := congrArg List.length hbefore
      rw [List.length_map, List.length_map] at hlength
      refine ⟨before', d', obs', after', heq', hlength, hseat, fun hdealt hboards => ?_⟩
      obtain ⟨hcards, hboard⟩ := hshows _ _ _ _ heq
      obtain ⟨hcards', hboard'⟩ := hshows' _ _ _ _ heq'
      rw [hseat, hdealt, hcards] at hcards'
      refine observation_eq hobs (List.cons.inj hcards').1.symm ?_
      rw [hboard, hboard', boardOf, hboards]
      rfl
    | event reported => cases hprompt
    | notify reported => cases hprompt

/-! ## The stepper -/

theorem eventsOf_filter_isCore (outputs : List (Output n)) :
    eventsOf (outputs.filter Output.isCore) = eventsOf outputs := by
  induction outputs with
  | nil => rfl
  | cons output outputs ih =>
    cases output with
    | event reported =>
      rw [List.filter_cons_of_pos (isCore_event reported), eventsOf_cons_event, ih]
      rfl
    | notify reported =>
      rw [List.filter_cons_of_neg (by simp), ih]
      rfl
    | prompt d obs =>
      rw [List.filter_cons_of_pos (isCore_prompt d obs), eventsOf_cons_prompt, ih]
      rfl

/-- Without its notifications a hand still shows what it deals. -/
theorem ShowsDealt.core {hand : List (Output n) × HandOutcome n} (h : ShowsDealt hand.1) :
    ShowsDealt (core hand).1 := by
  intro before d obs after heq
  obtain ⟨before', rest, hbefore, rfl, hrest⟩ := List.filter_eq_append_iff.mp heq
  obtain ⟨skipped, after', rfl, hskipped, -, -⟩ := List.filter_eq_cons_iff.mp hrest
  have hsame : eventsOf (before' ++ skipped) = eventsOf (before'.filter Output.isCore) := by
    rw [← eventsOf_filter_isCore, List.filter_append, List.filter_eq_nil_iff.mpr hskipped,
      List.append_nil]
  obtain ⟨hcards, hboard⟩ := h (before' ++ skipped) d obs after'
    (by rw [hbefore, List.append_assoc])
  rw [holeCardsOf, hsame] at hcards
  rw [boardOf, boardsOf, hsame] at hboard
  exact ⟨hcards, hboard⟩

theorem ShowsDealt.of_reportEnd {hand : List (Output n) × HandOutcome n}
    (h : ShowsDealt (reportEnd hand).1) : ShowsDealt hand.1 := by
  intro before d obs after heq
  obtain ⟨outputs, outcome⟩ := hand
  cases outcome with
  | finished result =>
    refine h before d obs (after ++ [.event (.handEnded result.handId result)]) ?_
    have hend := congrArg (· ++ [Output.event (.handEnded result.handId result)]) heq
    exact hend.trans (List.append_assoc _ _ _)
  | _ => exact h before d obs after heq

theorem faceDownHand_of_reportEnd {hand hand' : List (Output n) × HandOutcome n}
    (h : faceDownHand (reportEnd hand') = faceDownHand (reportEnd hand)) :
    faceDownHand hand' = faceDownHand hand := by
  obtain ⟨outputs, outcome⟩ := hand
  obtain ⟨outputs', outcome'⟩ := hand'
  obtain ⟨houtputs, hout⟩ := Prod.mk.inj h
  rw [reportEnd_snd, reportEnd_snd] at hout
  cases outcome with
  | finished =>
    cases outcome' with
    | finished =>
      simp only [reportEnd, List.map_append] at houtputs
      exact Prod.ext (List.append_inj_left' houtputs rfl) hout
    | _ => cases hout
  | _ => cases outcome' with
    | finished => cases hout
    | _ => exact Prod.ext houtputs hout

theorem faceDownHand_core {hand hand' : List (Output n) × HandOutcome n}
    (h : faceDownHand hand' = faceDownHand hand) :
    faceDownHand (core hand') = faceDownHand (core hand) := by
  obtain ⟨houtputs, hout⟩ := Prod.mk.inj h
  have hfilter : ∀ outputs : List (Output n), (outputs.filter Output.isCore).map Output.faceDown =
      (outputs.map Output.faceDown).filter Output.isCore := by
    intro outputs
    rw [List.filter_map]
    refine congrArg (List.map Output.faceDown) (List.filter_congr fun output _ => ?_)
    cases output <;> rfl
  exact Prod.ext (by rw [faceDownHand, core, hfilter, houtputs, ← hfilter]; rfl) hout

/-- Whatever the decks, the engine's loop and the stepper ask the same seats the same
questions, and a seat with the same hole cards and board is shown the same. -/
theorem observation_noninterference (e : Engine) (handId deckSeed deckSeed' : ℕ)
    (order order' : Fin 52 → Card) (startingStacks : List ℕ) (dealer : ℕ)
    (seatKinds : Option (List SeatKind)) (answers : List Action) :
    Noninterference (runHand e handId deckSeed order startingStacks dealer seatKinds answers)
        (runHand e handId deckSeed' order' startingStacks dealer seatKinds answers) ∧
      Noninterference
        (GameTree.playHand e handId deckSeed order startingStacks dealer seatKinds answers)
        (GameTree.playHand e handId deckSeed' order' startingStacks dealer seatKinds answers) := by
  have hdown := (runHand_faceDown (e := e) handId deckSeed' order' startingStacks dealer seatKinds
    answers).trans (runHand_faceDown handId deckSeed order startingStacks dealer seatKinds
      answers).symm
  refine ⟨.of_faceDown hdown runHand_shows runHand_shows, .of_faceDown ?_ ?_ ?_⟩
  · refine faceDownHand_of_reportEnd ?_
    rw [← core_runHand, ← core_runHand]
    exact faceDownHand_core hdown
  · refine ShowsDealt.of_reportEnd ?_
    rw [← core_runHand]
    exact runHand_shows.core
  · refine ShowsDealt.of_reportEnd ?_
    rw [← core_runHand]
    exact runHand_shows.core

end VibePoker.Game
