import VibePoker.Game.Reached

/-!
# From the forced bets to the award

What a hand that ends does after its forced bets, as a run of the engine's
operations that is labelled with their outputs. Which of the two functions awards
the hand is read off the control flow.

## Main definitions

* `handAward` — which function awards a hand
* `Passes` — one operation of the engine, with its outputs
* `Awarded` — the operations up to the award, and the award

## Main results

* `runHand_passes` — the outputs of a hand that ends are those of such a run
-/

namespace VibePoker.Game

open VibePoker.Core VibePoker.CS VibePoker.Math

variable {n : ℕ} {e : Engine}

/-! ## Events of a run -/

/-- The event that an output hands to the sink. -/
def Output.event? : Output n → Option EngineEvent
  | .event reported => some reported
  | _ => none

/-- The events that a run hands to its sink, in order. -/
def eventsOf (outputs : List (Output n)) : List EngineEvent := outputs.filterMap Output.event?

@[simp] theorem eventsOf_nil : eventsOf ([] : List (Output n)) = [] := rfl

@[simp] theorem eventsOf_cons_event (event : EngineEvent) (outputs : List (Output n)) :
    eventsOf (.event event :: outputs) = event :: eventsOf outputs := rfl

@[simp] theorem eventsOf_cons_notify (event : EngineEvent) (outputs : List (Output n)) :
    eventsOf (.notify event :: outputs) = eventsOf outputs := rfl

@[simp] theorem eventsOf_cons_prompt (d : Decision n) (obs : Observation)
    (outputs : List (Output n)) : eventsOf (.prompt d obs :: outputs) = eventsOf outputs := rfl

@[simp] theorem eventsOf_append (outputs later : List (Output n)) :
    eventsOf (outputs ++ later) = eventsOf outputs ++ eventsOf later := List.filterMap_append

@[simp] theorem eventsOf_events (events : List EngineEvent) :
    eventsOf (events.map Output.event : List (Output n)) = events := by
  induction events with
  | nil => rfl
  | cons event events ih => rw [List.map_cons, eventsOf_cons_event, ih]

/-- The board cards that an event reports, with their street. -/
def EngineEvent.board? : EngineEvent → Option (Street × List Card)
  | .boardDealt street cards => some (street, cards)
  | _ => none

/-- The board cards reported by a run, street by street. -/
def boardsOf (outputs : List (Output n)) : List (Street × List Card) :=
  (eventsOf outputs).filterMap EngineEvent.board?

@[simp] theorem boardsOf_append (outputs later : List (Output n)) :
    boardsOf (outputs ++ later) = boardsOf outputs ++ boardsOf later := by
  rw [boardsOf, eventsOf_append, List.filterMap_append]
  rfl

/-- The hand came to its end. -/
def HandOutcome.isFinished : HandOutcome n → Bool
  | .finished _ _ _ _ => true
  | _ => false

/-! ## The award -/

/-- The functions that award a hand: `awardUncontested` and `resolveShowdown`. -/
inductive Award
  | uncontested
  | showdown
deriving DecidableEq, Repr

/-- The award of a hand after a betting round that came out as `outcome`. -/
def awardAfter (outcome : RoundOutcome n)
    (proceed : GameState n → List Action → Option Award) : Option Award :=
  match outcome with
  | .winner _ _ _ => some .uncontested
  | .ended s answers => proceed (collectStreetBets s) answers
  | _ => none

/-- The award of a hand, from the streets still to come. -/
def postflopAward (e : Engine) :
    List (Street × ℕ) → Deck → GameState n → List Action → Option Award
  | [], _, _, _ => some .showdown
  | (street, count) :: streets, deck, s, answers =>
    if s.playersStillIn ≤ 1 then some .showdown
    else
      match Engine.dealBoardCards (e.beginStreet s street) deck count street with
      | none => none
      | some (s, deck, _) =>
        match Engine.firstToAct s with
        | some first =>
          awardAfter (runBettingRound e answers s (fun _ => false) first).2
            (postflopAward e streets deck)
        | none => postflopAward e streets deck (collectStreetBets s) answers

/-- Which function awards the hand that `runHand` plays, if it gets that far. -/
def handAward (e : Engine) (handId : ℕ) (order : Fin 52 → Card) (startingStacks : List ℕ)
    (dealer : ℕ) (seatKinds : Option (List SeatKind)) (answers : List Action) : Option Award :=
  match setupHand e (.new order) (e.initState handId startingStacks dealer) seatKinds with
  | none => none
  | some (s, deck, canonicalBb, _) =>
    match nextActiveAfter canonicalBb s.players with
    | none => some .uncontested
    | some first =>
      awardAfter (runBettingRound e answers s (fun _ => false) first).2
        (postflopAward e Engine.postflop deck)

/-! ## Operations between the forced bets and the award -/

/-- One operation of the engine, with what it does to its environment. Answers are only
those that lead to a state that is `ok`. -/
inductive Passes (e : Engine) (ok : GameState n → Prop) :
    GameState n → List (Output n) → GameState n → Prop
  | asked (s : GameState n) (seat : Option (Fin n)) : Passes e ok s [] (s.setActionOn seat)
  | acted (d : Decision n) (obs : Observation)
      (hactive : (d.state.players d.seat).status = .active) (raw : Action)
      (hok : ok (d.acted raw)) :
      Passes e ok d.state (.prompt d obs :: (d.answer raw).1) (d.acted raw)
  | collected (s : GameState n) : Passes e ok s [] (collectStreetBets s)
  | streetBegun (s : GameState n) (street : Street) : Passes e ok s [] (e.beginStreet s street)
  | boardDealt (s : GameState n) {now street : Street} {streets : List (Street × ℕ)}
      (cards : List Card) (hnow : s.board.length = boardSize now)
      (hnext : streetsAfter now = (street, cards.length) :: streets)
      (told : List (Output n)) (htold : told = [] ∨ told = [.notify (.boardDealt street cards)]) :
      Passes e ok s (.event (.boardDealt street cards) :: told) (s.extendBoard cards)

/-- A run of such operations, with all its outputs. -/
def Passage (e : Engine) (ok : GameState n → Prop) (s : GameState n) (outputs : List (Output n))
    (t : GameState n) : Prop :=
  ∃ labels, Trace (Passes e ok) s labels t ∧ outputs = labels.flatten

namespace Passage

variable {ok : GameState n → Prop} {s t u : GameState n} {outputs later : List (Output n)}

theorem refl (s : GameState n) : Passage e ok s [] s := ⟨[], .nil s, rfl⟩

theorem trans (h : Passage e ok s outputs t) (hlater : Passage e ok t later u) :
    Passage e ok s (outputs ++ later) u := by
  obtain ⟨labels, htrace, rfl⟩ := h
  obtain ⟨labels', htrace', rfl⟩ := hlater
  exact ⟨labels ++ labels', htrace.append htrace', by rw [List.flatten_append]⟩

theorem cons (head : Passes e ok s outputs t) (hlater : Passage e ok t later u) :
    Passage e ok s (outputs ++ later) u := by
  obtain ⟨labels, htrace, rfl⟩ := hlater
  exact ⟨outputs :: labels, .cons head htrace, by rw [List.flatten_cons]⟩

theorem single (head : Passes e ok s outputs t) : Passage e ok s outputs t :=
  ⟨[outputs], .single head, by simp⟩

/-- With a condition on the states after the answers that is weaker. -/
theorem mono {ok' : GameState n → Prop} (hle : ∀ s, ok s → ok' s)
    (h : Passage e ok s outputs t) : Passage e ok' s outputs t := by
  obtain ⟨labels, htrace, rfl⟩ := h
  refine ⟨labels, htrace.mono fun s outputs t hstep => ?_, rfl⟩
  cases hstep with
  | asked _ seat => exact .asked s seat
  | acted d obs hactive raw hok => exact .acted d obs hactive raw (hle _ hok)
  | collected => exact .collected s
  | streetBegun _ street => exact .streetBegun s street
  | boardDealt _ cards hnow hnext told htold => exact .boardDealt s cards hnow hnext told htold

/-- What holds of the outputs so far and the state, and is kept by each operation, holds
after all of them. -/
theorem invariant (Inv : List (Output n) → GameState n → Prop)
    (hkeep : ∀ past s outputs t, Inv past s → Passes e ok s outputs t → Inv (past ++ outputs) t)
    (h : Passage e ok s outputs t) (past : List (Output n)) (hinit : Inv past s) :
    Inv (past ++ outputs) t := by
  obtain ⟨labels, htrace, rfl⟩ := h
  have hrun := htrace.history (fun labels s => Inv (past ++ labels.flatten) s)
    (fun labels s a t hs hstep => by
      rw [List.flatten_append, ← List.append_assoc, List.flatten_cons, List.flatten_nil,
        List.append_nil]
      exact hkeep _ _ _ _ hs hstep) [] (by simpa using hinit)
  simpa using hrun

end Passage

/-! ### What an operation does to the seats -/

theorem performAction_players_of_ne {s : GameState n} {seat i : Fin n} (hne : i ≠ seat)
    (action : Action) : (Engine.performAction s seat action).1.players i = s.players i := by
  cases action with
  | check => rfl
  | fold => exact setPlayer_of_ne s _ hne
  | call => exact setPlayer_of_ne s _ hne
  | raise amount => exact setPlayer_of_ne s _ hne
  | allIn =>
    simp only [Engine.performAction]
    split_ifs <;> exact setPlayer_of_ne s _ hne

/-- Nobody's cards change. -/
theorem performAction_holeCards (s : GameState n) (seat i : Fin n) (action : Action) :
    ((Engine.performAction s seat action).1.players i).holeCards = (s.players i).holeCards := by
  by_cases hi : i = seat
  · subst hi
    cases action with
    | allIn =>
      simp only [Engine.performAction]
      split_ifs <;> simp
    | _ => simp [Engine.performAction]
  · rw [performAction_players_of_ne hi]

/-! ### What an operation reports -/

theorem answer_fst (d : Decision n) (raw : Action) :
    (d.answer raw).1 =
      ((Engine.performAction d.state d.seat (Engine.normalizeAction d.state d.seat raw)).2.2 ++
        [EngineEvent.actionTaken d.seat (Engine.normalizeAction d.state d.seat raw)
          (d.acted raw).potTotal]).map Output.event ++
      [.notify (.actionTaken d.seat (Engine.normalizeAction d.state d.seat raw)
        (d.acted raw).potTotal)] := by
  rw [Decision.answer]
  split
  · split <;> rfl
  · rfl

/-- The events of an answer: the seat that it puts all-in, if it does, then the action. -/
theorem eventsOf_answer (d : Decision n) (raw : Action) :
    eventsOf (d.answer raw).1 =
      (Engine.performAction d.state d.seat (Engine.normalizeAction d.state d.seat raw)).2.2 ++
        [.actionTaken d.seat (Engine.normalizeAction d.state d.seat raw)
          (d.acted raw).potTotal] := by
  rw [answer_fst, eventsOf_append, eventsOf_events, eventsOf_cons_notify, eventsOf_nil,
    List.append_nil]

/-- An answer does not ask again. -/
theorem promptsOf_answer (d : Decision n) (raw : Action) : promptsOf (d.answer raw).1 = [] := by
  rw [answer_fst, promptsOf_append, promptsOf_events]
  rfl

/-- An operation asks first, if at all, and about the state that it starts in. -/
theorem Passes.prompt_head {ok : GameState n → Prop} {s t : GameState n}
    {outputs before after : List (Output n)} {d : Decision n} {obs : Observation}
    (h : Passes e ok s outputs t) (hprompt : outputs = before ++ .prompt d obs :: after) :
    before = [] ∧ d.state = s := by
  have hmem : (d, obs) ∈ promptsOf outputs := by
    rw [hprompt, promptsOf_append, promptsOf_cons_prompt]
    simp
  cases h with
  | asked | collected | streetBegun => cases hmem
  | acted d' obs' hactive raw hok =>
    cases before with
    | nil =>
      obtain ⟨⟨rfl, -⟩, -⟩ := by simpa using hprompt
      exact ⟨rfl, rfl⟩
    | cons first before =>
      rw [List.cons_append] at hprompt
      have hlater : (d, obs) ∈ promptsOf (d'.answer raw).1 := by
        rw [(List.cons.inj hprompt).2, promptsOf_append, promptsOf_cons_prompt]
        simp
      rw [promptsOf_answer] at hlater
      cases hlater
  | boardDealt _ cards hnow hnext told htold =>
    rcases htold with rfl | rfl <;> cases hmem

/-- No action deals board cards. -/
theorem boardsOf_answer (d : Decision n) (obs : Observation) (raw : Action) :
    boardsOf (.prompt d obs :: (d.answer raw).1) = [] := by
  rw [boardsOf, eventsOf_cons_prompt, eventsOf_answer, List.filterMap_eq_nil_iff]
  intro event hevent
  rcases List.mem_append.mp hevent with hbefore | htaken
  · obtain ⟨seat, total, rfl⟩ := performAction_allIn _ _ _ event hbefore
    rfl
  · rw [List.mem_singleton.mp htaken]
    rfl

/-- The streets that are reported and those still to come are the same before and after an
operation, and the cards reported are those put on the board. -/
theorem Passes.boards {ok : GameState n → Prop} {s t : GameState n} {outputs : List (Output n)}
    (h : Passes e ok s outputs t) {now : Street} (hnow : s.board.length = boardSize now) :
    ∃ now', t.board.length = boardSize now' ∧
      streetsAfter now =
        ((boardsOf outputs).map fun dealt => (dealt.1, dealt.2.length)) ++ streetsAfter now' ∧
      t.board = s.board ++ ((boardsOf outputs).map Prod.snd).flatten := by
  have hsame : boardsOf outputs = [] → t.board = s.board → ∃ now',
      t.board.length = boardSize now' ∧
      streetsAfter now =
        ((boardsOf outputs).map fun dealt => (dealt.1, dealt.2.length)) ++ streetsAfter now' ∧
      t.board = s.board ++ ((boardsOf outputs).map Prod.snd).flatten := by
    intro hboards hboard
    rw [hboards, hboard]
    exact ⟨now, hnow, rfl, by simp⟩
  cases h with
  | asked | collected | streetBegun => exact hsame rfl rfl
  | acted d obs hactive raw hok =>
    exact hsame (boardsOf_answer d obs raw) (performAction_board _ _ _)
  | @boardDealt _ now' street streets cards hnow' hnext told htold =>
    have hboards : boardsOf (.event (.boardDealt street cards) :: told) = [(street, cards)] := by
      rcases htold with rfl | rfl <;> rfl
    -- the size of the board determines the streets still to come
    have hstreets : streetsAfter now = streetsAfter now' := by
      have hsize := hnow.symm.trans hnow'
      revert hsize
      cases now <;> cases now' <;> simp [boardSize, streetsAfter]
    obtain ⟨hrest, hsize⟩ := streetsAfter_of_cons hnext
    refine ⟨street, ?_, ?_, ?_⟩
    · rw [GameState.extendBoard_board, List.length_append, hsize, hnow']
    · rw [hboards, hstreets, hnext, hrest]
      rfl
    · rw [hboards]
      simp

/-- The boards of a run come street by street, until the board has its size. -/
theorem Passage.boards {ok : GameState n → Prop} {s t : GameState n} {outputs : List (Output n)}
    (h : Passage e ok s outputs t) (hboard : s.board = []) :
    ∃ now, t.board.length = boardSize now ∧
      Engine.postflop =
        ((boardsOf outputs).map fun dealt => (dealt.1, dealt.2.length)) ++ streetsAfter now ∧
      t.board = ((boardsOf outputs).map Prod.snd).flatten := by
  refine h.invariant (fun past u => ∃ now, u.board.length = boardSize now ∧
      Engine.postflop =
        ((boardsOf past).map fun dealt => (dealt.1, dealt.2.length)) ++ streetsAfter now ∧
      u.board = ((boardsOf past).map Prod.snd).flatten) ?_ [] ⟨.preflop, ?_, rfl, hboard⟩
  · rintro past u outputs v ⟨now, hnow, hstreets, hcards⟩ hstep
    obtain ⟨now', hnow', hstreets', hcards'⟩ := hstep.boards hnow
    refine ⟨now', hnow', ?_, ?_⟩
    · rw [boardsOf_append, List.map_append, List.append_assoc, ← hstreets', hstreets]
    · rw [boardsOf_append, List.map_append, List.flatten_append, ← hcards, hcards']
  · rw [hboard]
    rfl

/-! ## Runs of these operations -/

/-- Two seats or none are still in. -/
def GameState.Contested (s : GameState n) : Prop := s.playersStillIn ≠ 1

/-- What an answer leads to. -/
theorem Decision.answer_cases (d : Decision n) (raw : Action) :
    ((d.acted raw).playersStillIn = 1 ∧ ∃ winner, (d.acted raw).firstStillIn = some winner ∧
        (d.answer raw).2 = .winner winner (d.acted raw)) ∨
      ((d.acted raw).playersStillIn = 1 ∧ (d.acted raw).firstStillIn = none ∧
        (d.answer raw).2 = .panicked) ∨
      ((d.acted raw).Contested ∧
        (d.answer raw).2 = .next (d.acted raw) (d.respondedAfter raw) (ringNext d.seat)) := by
  rw [Decision.answer]
  split
  case isTrue hone =>
    split
    case h_1 winner hwinner => exact Or.inl ⟨hone, winner, hwinner, rfl⟩
    case h_2 hnone => exact Or.inr (Or.inl ⟨hone, hnone, rfl⟩)
  case isFalse hmany => exact Or.inr (Or.inr ⟨hmany, rfl⟩)

/-- How a betting round comes out, as a run of operations. -/
def RoundPasses (e : Engine) (s : GameState n) (outputs : List (Output n)) :
    RoundOutcome n → Prop
  | .winner winner t _ => Passage e (fun _ => True) s outputs t ∧ t.playersStillIn = 1 ∧
      t.firstStillIn = some winner
  | .ended t _ => Passage e GameState.Contested s outputs t ∧ t.board = s.board
  | _ => True

theorem RoundPasses.after {s t : GameState n} {outputs later : List (Output n)}
    {outcome : RoundOutcome n} (h : RoundPasses e t later outcome)
    (hfirst : Passage e GameState.Contested s outputs t) (hboard : t.board = s.board) :
    RoundPasses e s (outputs ++ later) outcome := by
  cases outcome with
  | winner winner u rest => exact ⟨(hfirst.mono fun _ _ => trivial).trans h.1, h.2⟩
  | ended u rest => exact ⟨hfirst.trans h.1, h.2.trans hboard⟩
  | _ => trivial

/-- A betting round is a run of operations. -/
theorem runBettingRound_passes (answers : List Action) (s : GameState n)
    (hasResponded : Fin n → Bool) (current : Fin n) :
    RoundPasses e s (runBettingRound e answers s hasResponded current).1
      (runBettingRound e answers s hasResponded current).2 := by
  refine runBettingRound_cases (fun _ s _ _ round => RoundPasses e s round.1 round.2) ?allDone
    ?blind ?waiting ?answered answers s hasResponded current
  case allDone => exact fun _ s _ _ _ => ⟨.single (.asked s none), rfl⟩
  case blind => exact fun _ _ _ _ _ _ _ => trivial
  case waiting => exact fun _ _ _ _ _ _ _ => trivial
  case answered =>
    intro raw answers s hasResponded current seat obs hseek hobs ih
    have hactive := unsettled_active (unsettled_of_seek hseek)
    -- the seat is asked, and its answer applied
    have hacted : ∀ ok : GameState n → Prop,
        ok (Decision.acted ⟨s.setActionOn (some seat), hasResponded, seat⟩ raw) →
        Passage e ok s (.prompt ⟨s.setActionOn (some seat), hasResponded, seat⟩ obs ::
          (Decision.answer ⟨s.setActionOn (some seat), hasResponded, seat⟩ raw).1)
          (Decision.acted ⟨s.setActionOn (some seat), hasResponded, seat⟩ raw) :=
      fun ok hok => .cons (.asked s (some seat)) (.single (.acted _ obs hactive raw hok))
    obtain ⟨hone, winner, hwinner, hanswer⟩ | ⟨-, -, hanswer⟩ | ⟨hmany, hanswer⟩ :=
      Decision.answer_cases ⟨s.setActionOn (some seat), hasResponded, seat⟩ raw
    · rw [hanswer, Answer.goOn, List.append_nil]
      exact ⟨hacted _ trivial, hone, hwinner⟩
    · rw [hanswer]
      trivial
    · rw [hanswer]
      exact (ih _ _ _ hanswer).after (hacted _ hmany) (performAction_board _ _ _)

/-- From the state `s` a hand makes the outputs and comes out as told, awarded by the
given function. -/
inductive Awarded (e : Engine) (s : GameState n) :
    Option Award → List (Output n) → HandOutcome n → Prop
  | uncontested {t : GameState n} {outputs : List (Output n)} {winner : Fin n}
      (h : Passage e (fun _ => True) s outputs t) (hone : t.playersStillIn = 1)
      (hwinner : t.firstStillIn = some winner) (rest : List Action) :
      Awarded e s (some .uncontested) outputs
        (settle (Engine.awardUncontested t winner).1 (Engine.awardUncontested t winner).2 rest)
  | showdown {t t' : GameState n} {outputs : List (Output n)} {chipDeltas : Fin n → ℤ}
      (h : Passage e GameState.Contested s outputs t)
      (hresolve : e.resolveShowdown t = some (t', chipDeltas)) (rest : List Action) :
      Awarded e s (some .showdown) outputs (settle t' chipDeltas rest)
  /-- The hand did not end. -/
  | stopped {award : Option Award} {outputs : List (Output n)} {outcome : HandOutcome n}
      (h : ∀ result players chipDeltas rest, outcome ≠ .finished result players chipDeltas rest) :
      Awarded e s award outputs outcome

namespace Awarded

variable {s t : GameState n} {award : Option Award} {outputs later : List (Output n)}
  {outcome : HandOutcome n}

theorem panicked : Awarded e s award outputs .panicked := .stopped fun _ _ _ _ => nofun

theorem after (h : Awarded e t award later outcome)
    (hfirst : Passage e GameState.Contested s outputs t) :
    Awarded e s award (outputs ++ later) outcome := by
  cases h with
  | uncontested h hone hwinner rest =>
    exact .uncontested ((hfirst.mono fun _ _ => trivial).trans h) hone hwinner rest
  | showdown h hresolve rest => exact .showdown (hfirst.trans h) hresolve rest
  | stopped h => exact .stopped h

end Awarded

/-- Dealing the streets that are missing and resolving the showdown. -/
theorem runOut_passes (streets : List (Street × ℕ)) (deck : Deck) {s : GameState n} {now : Street}
    (hboard : s.board.length = boardSize now) (hstreets : streetsAfter now = streets)
    (answers : List Action) :
    Awarded e s (some .showdown) (runOut e streets deck s answers).1
      (runOut e streets deck s answers).2 := by
  induction streets generalizing s now deck with
  | nil =>
    rw [runOut, resolveAndSettle]
    dsimp only
    split
    · exact .panicked
    · rename_i s' chipDeltas hresolve
      exact .showdown (.refl s) hresolve answers
  | cons next streets ih =>
    obtain ⟨street, count⟩ := next
    rw [runOut]
    split
    · exact .panicked
    · rename_i s' deck' event hdeal
      obtain ⟨cards, rfl, rfl, rfl⟩ := dealBoardCards_board hdeal
      obtain ⟨hrest, hsize⟩ := streetsAfter_of_cons hstreets
      have hdealt : Passage e GameState.Contested s [.event (.boardDealt street cards)]
          (s.extendBoard cards) :=
        .single (.boardDealt s cards hboard hstreets [] (Or.inl rfl))
      have hlength : (s.extendBoard cards).board.length = boardSize street := by
        rw [GameState.extendBoard_board, List.length_append, hboard, hsize]
      exact (ih deck' hlength hrest).after hdealt

theorem runShowdown_passes (deck : Deck) {s : GameState n} {now : Street}
    (hboard : s.board.length = boardSize now) (answers : List Action) :
    Awarded e s (some .showdown) (runShowdown e deck s answers).1
      (runShowdown e deck s answers).2 := by
  rw [runShowdown_eq_runOut hboard]
  exact runOut_passes _ deck hboard rfl answers

/-- After a betting round, the hand is awarded or goes on. -/
theorem afterRound_passes {s : GameState n} {round : List (Output n) × RoundOutcome n}
    {proceed : GameState n → List Action → List (Output n) × HandOutcome n}
    {award : GameState n → List Action → Option Award} (hround : RoundPasses e s round.1 round.2)
    (hproceed : ∀ t answers, t.board = s.board →
      Awarded e (collectStreetBets t) (award (collectStreetBets t) answers)
        (proceed (collectStreetBets t) answers).1 (proceed (collectStreetBets t) answers).2) :
    Awarded e s (awardAfter round.2 award) (afterRound round proceed).1
      (afterRound round proceed).2 := by
  obtain ⟨outputs, outcome⟩ := round
  cases outcome with
  | winner winner t rest => exact .uncontested hround.1 hround.2.1 hround.2.2 rest
  | ended t answers =>
    have hcollected := hround.1.trans (.single (.collected t))
    rw [List.append_nil] at hcollected
    exact (hproceed t answers hround.2).after hcollected
  | _ => exact .stopped fun _ _ _ _ => nofun

/-- The streets after the preflop. -/
theorem runPostflop_passes (streets : List (Street × ℕ)) (deck : Deck) {s : GameState n}
    {now : Street} (hboard : s.board.length = boardSize now) (hstreets : streetsAfter now = streets)
    (answers : List Action) :
    Awarded e s (postflopAward e streets deck s answers) (runPostflop e streets deck s answers).1
      (runPostflop e streets deck s answers).2 := by
  induction streets generalizing s now deck answers with
  | nil =>
    rw [runPostflop, postflopAward]
    exact runShowdown_passes deck hboard answers
  | cons next streets ih =>
    obtain ⟨street, count⟩ := next
    rw [runPostflop, postflopAward]
    split
    · exact runShowdown_passes deck hboard answers
    · rcases hdeal : Engine.dealBoardCards (e.beginStreet s street) deck count street with
        _ | ⟨s', deck', event⟩
      · exact .panicked
      · obtain ⟨cards, rfl, rfl, rfl⟩ := dealBoardCards_board hdeal
        obtain ⟨hrest, hsize⟩ := streetsAfter_of_cons hstreets
        have hdealt : Passage e GameState.Contested s
            [.event (.boardDealt street cards), .notify (.boardDealt street cards)]
            ((e.beginStreet s street).extendBoard cards) :=
          .cons (.streetBegun s street)
            (.single (.boardDealt (e.beginStreet s street) cards hboard hstreets _ (Or.inr rfl)))
        have hlength : ((e.beginStreet s street).extendBoard cards).board.length =
            boardSize street := by
          rw [GameState.extendBoard_board, List.length_append, hsize, ← hboard]
          rfl
        refine Awarded.after ?_ hdealt
        dsimp only
        cases Engine.firstToAct ((e.beginStreet s street).extendBoard cards) with
        | some first =>
          refine afterRound_passes (runBettingRound_passes _ _ _ _) fun t answers ht => ?_
          exact ih deck' (s := collectStreetBets t) ((congrArg List.length ht).trans hlength) hrest
            answers
        | none =>
          -- nobody can act on this street, which ends as it begins
          have hcollected : Passage e GameState.Contested
              ((e.beginStreet s street).extendBoard cards) []
              (collectStreetBets ((e.beginStreet s street).extendBoard cards)) :=
            .single (.collected _)
          have hlater := @ih deck' (collectStreetBets ((e.beginStreet s street).extendBoard cards))
            street hlength hrest answers
          exact hlater.after hcollected

/-! ## A whole hand -/

/-- The hand that nobody can be asked in is awarded as it was set up, any other one after
the operations between the forced bets and the award. -/
inductive HandAwarded (e : Engine) (s : GameState n) (canonicalBb : ℕ) (award : Option Award)
    (outputs : List (Output n)) (outcome : HandOutcome n) : Prop
  | unasked {winner : Fin n} (hnobody : nextActiveAfter canonicalBb s.players = none)
      (haward : award = some .uncontested) (houtputs : outputs = [])
      (hwinner : s.firstStillIn = some winner) (rest : List Action)
      (houtcome : outcome = settle (Engine.awardUncontested s winner).1
        (Engine.awardUncontested s winner).2 rest)
  | played {first : Fin n} (hfirst : nextActiveAfter canonicalBb s.players = some first)
      (h : Awarded e s award outputs outcome)

section Hand

variable {handId deckSeed : ℕ} {order : Fin 52 → Card} {startingStacks : List ℕ} {dealer : ℕ}
  {seatKinds : Option (List SeatKind)} {answers : List Action}
  {outputs : List (Output startingStacks.length)} {result : HandResult}
  {players : Fin startingStacks.length → PlayerState}
  {chipDeltas : Fin startingStacks.length → ℤ} {rest : List Action}

theorem of_reportEnd {hand : List (Output startingStacks.length) ×
      HandOutcome startingStacks.length}
    (h : reportEnd hand = (outputs, .finished result players chipDeltas rest)) :
    outputs = hand.1 ++ [.event (.handEnded result.handId result)] ∧
      hand.2 = .finished result players chipDeltas rest := by
  have hsnd : hand.2 = .finished result players chipDeltas rest := by
    rw [← reportEnd_snd, h]
  rw [reportEnd, hsnd] at h
  exact ⟨(Prod.mk.inj h).1.symm, hsnd⟩

/-- The state in which a hand ends: the award moves chips only. -/
structure EndsIn (t : GameState n) (award : Option Award) (result : HandResult)
    (players : Fin n → PlayerState) : Prop where
  status_eq : ∀ i, (players i).status = (t.players i).status
  holeCards_eq : ∀ i, (players i).holeCards = (t.players i).holeCards
  board_eq : result.board = t.board
  seats_eq : result.seats.map (fun o => (o.seat, o.holeCards)) =
    ((List.finRange n).filter fun i => (t.players i).status ≠ .out).map fun i =>
      (i.val, (t.players i).holeCards)
  satOut_eq : ∀ o ∈ result.seats, ∀ i : Fin n, o.seat = i.val → o.satOut = t.satOut i
  full : award = some .showdown → t.board.length = 5

theorem endsIn_settle {t t' : GameState n} {award : Option Award} {chipDeltas : Fin n → ℤ}
    (hplayers : ∀ i, (t'.players i).status = (t.players i).status ∧
      (t'.players i).holeCards = (t.players i).holeCards) (hboard : t'.board = t.board)
    (hsatOut : t'.satOut = t.satOut) (hfull : award = some .showdown → t.board.length = 5) :
    EndsIn t award (buildResult t'.handId t' chipDeltas) t'.players where
  status_eq i := (hplayers i).1
  holeCards_eq i := (hplayers i).2
  board_eq := hboard
  seats_eq := by
    rw [buildResult, List.map_map]
    simp only [(hplayers _).1]
    refine List.map_congr_left fun i _ => ?_
    rw [Function.comp_apply, seatOutcome, (hplayers i).2]
  satOut_eq := by
    intro o ho i hi
    obtain ⟨j, -, rfl⟩ := List.mem_map.mp ho
    rw [← hsatOut, ← Fin.ext hi]
    rfl
  full := hfull

/-- The operations of a hand that ends, and the state that they lead to: a showdown comes
after answers that leave the hand contested, and the other award when one seat is left in or
nobody could be asked. -/
theorem HandAwarded.passage {s : GameState n} {canonicalBb : ℕ} {award : Option Award}
    {outputs : List (Output n)} {result : HandResult} {players : Fin n → PlayerState}
    {chipDeltas : Fin n → ℤ} {rest : List Action}
    (h : HandAwarded e s canonicalBb award outputs (.finished result players chipDeltas rest)) :
    ∃ t, Passage e (fun _ => True) s outputs t ∧ EndsIn t award result players ∧
      ((award = some .showdown ∧ Passage e GameState.Contested s outputs t) ∨
        (award = some .uncontested ∧ (t.playersStillIn = 1 ∨ t = s))) := by
  -- an uncontested award moves stacks only, whatever led to it
  have huncontested : ∀ (t : GameState n) (winner : Fin n) (rest' : List Action),
      award = some .uncontested →
      HandOutcome.finished result players chipDeltas rest =
        settle (Engine.awardUncontested t winner).1 (Engine.awardUncontested t winner).2 rest' →
      EndsIn t award result players := by
    intro t winner rest' haward heq
    rw [settle, HandOutcome.finished.injEq] at heq
    obtain ⟨rfl, rfl, -, -⟩ := heq
    refine endsIn_settle (fun i => ?_) rfl rfl (by simp [haward])
    simp only [Engine.awardUncontested]
    split <;> exact ⟨rfl, rfl⟩
  cases h with
  | unasked hnobody haward houtputs hwinner rest' houtcome =>
    exact ⟨s, houtputs ▸ .refl s, huncontested s _ rest' haward houtcome,
      Or.inr ⟨haward, Or.inr rfl⟩⟩
  | played hfirst h =>
    generalize hout : HandOutcome.finished result players chipDeltas rest = outcome at h
    cases h with
    | @uncontested t _ winner h hone hwinner rest' =>
      exact ⟨t, h, huncontested t winner rest' rfl hout, Or.inr ⟨rfl, Or.inl hone⟩⟩
    | @showdown t t' _ _ h hresolve rest' =>
      rw [settle, HandOutcome.finished.injEq] at hout
      obtain ⟨rfl, rfl, -, -⟩ := hout
      obtain ⟨hboard, -, rfl⟩ := resolveShowdown_eq_some hresolve
      exact ⟨t, h.mono fun _ _ => trivial,
        endsIn_settle (fun i => ⟨rfl, rfl⟩) rfl rfl fun _ => hboard, Or.inl ⟨rfl, h⟩⟩
    | stopped h => exact absurd hout.symm (h _ _ _ _)

/-- A hand that ends reports its start, what its setup did, what the operations up to the
award did, and its end. -/
theorem runHand_passes
    (h : runHand e handId deckSeed order startingStacks dealer seatKinds answers =
      (outputs, .finished result players chipDeltas rest)) :
    ∃ s deck canonicalBb events later,
      setupHand e (.new order) (e.initState handId startingStacks dealer) seatKinds =
        some (s, deck, canonicalBb, events) ∧
      outputs = .event (.handStarted handId dealer deckSeed) :: events.map .event ++ later ++
        [.event (.handEnded result.handId result)] ∧
      HandAwarded e s canonicalBb
        (handAward e handId order startingStacks dealer seatKinds answers) later
        (.finished result players chipDeltas rest) := by
  rw [runHand] at h
  rw [handAward]
  rcases hsetup : setupHand e (.new order) (e.initState handId startingStacks dealer) seatKinds with
    _ | ⟨s, deck, canonicalBb, events⟩
  · rw [hsetup] at h
    cases (Prod.mk.inj h).2
  · rw [hsetup] at h
    obtain ⟨houtputs, houtcome⟩ := of_reportEnd h
    refine ⟨s, deck, canonicalBb, events, _, rfl, houtputs, ?_⟩
    dsimp only at houtcome ⊢
    rw [← houtcome]
    rcases hfirst : nextActiveAfter canonicalBb s.players with _ | first
    · rw [hfirst, awardUncontestedAndFinish] at houtcome
      dsimp only at houtcome ⊢
      rcases hwinner : s.firstStillIn with _ | winner
      · rw [hwinner] at houtcome
        cases houtcome
      · refine .unasked hfirst rfl rfl hwinner answers ?_
        rw [awardUncontestedAndFinish, hwinner]
    · refine .played hfirst ?_
      have hboard : s.board.length = boardSize .preflop := by
        rw [(opened_of_setupHand (Nat.zero_le 52) hsetup).board_eq]
        rfl
      refine afterRound_passes (runBettingRound_passes _ _ _ _) fun t answers ht => ?_
      exact @runPostflop_passes _ _ _ deck (collectStreetBets t) .preflop
        ((congrArg List.length ht).trans hboard) rfl answers

end Hand

end VibePoker.Game
