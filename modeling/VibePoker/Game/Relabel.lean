import VibePoker.Game.Passage

/-!
# Relabelled cards

The engine deals cards in the order of the deck and hands them to the evaluator, and does nothing
else with them. Where the evaluator does not tell some cards apart, a hand from a deck in which
these cards are exchanged is the same hand with these cards exchanged.

## Main definitions

* `GameState.relabel`, `Output.relabel` — a state, an output with its cards relabelled
* `relabelHand` — a whole hand with its cards relabelled
* `Engine.Overlooks` — the evaluator ranks relabelled cards alike

## Main results

* `runHand_relabel` — a hand from a relabelled deck is the relabelled hand
-/

namespace VibePoker.Game

open VibePoker.Core VibePoker.Math

variable {n : ℕ} {e : Engine}

/-! ## Relabelling -/

namespace PlayerState

def relabel (f : Card → Card) (p : PlayerState) : PlayerState :=
  { p with holeCards := p.holeCards.map (Prod.map f f) }

@[simp] theorem relabel_stack (f : Card → Card) (p : PlayerState) :
    (p.relabel f).stack = p.stack := rfl

@[simp] theorem relabel_status (f : Card → Card) (p : PlayerState) :
    (p.relabel f).status = p.status := rfl

@[simp] theorem relabel_betThisStreet (f : Card → Card) (p : PlayerState) :
    (p.relabel f).betThisStreet = p.betThisStreet := rfl

@[simp] theorem relabel_totalCommitted (f : Card → Card) (p : PlayerState) :
    (p.relabel f).totalCommitted = p.totalCommitted := rfl

@[simp] theorem relabel_stillIn (f : Card → Card) (p : PlayerState) :
    (p.relabel f).stillIn = p.stillIn := rfl

theorem relabel_putAllIn (f : Card → Card) (p : PlayerState) (amount : ℕ) :
    (p.relabel f).putAllIn amount = (p.putAllIn amount).relabel f := by
  have hput : (p.relabel f).put amount = (p.put amount).relabel f := rfl
  simp only [putAllIn, hput]
  rw [apply_ite (relabel f)]
  rfl

end PlayerState

def GameState.relabel (f : Card → Card) (s : GameState n) : GameState n :=
  { s with
    board := s.board.map f
    players := fun i => (s.players i).relabel f }

@[simp] theorem relabel_players (f : Card → Card) (s : GameState n) (i : Fin n) :
    (s.relabel f).players i = (s.players i).relabel f := rfl

@[simp] theorem relabel_currentBet (f : Card → Card) (s : GameState n) :
    (s.relabel f).currentBet = s.currentBet := rfl

def Decision.relabel (f : Card → Card) (d : Decision n) : Decision n :=
  { d with state := d.state.relabel f }

def Observation.relabel (f : Card → Card) (obs : Observation) : Observation :=
  { obs with
    holeCards := Prod.map f f obs.holeCards
    board := obs.board.map f }

def SeatOutcome.relabel (f : Card → Card) (outcome : SeatOutcome) : SeatOutcome :=
  { outcome with holeCards := outcome.holeCards.map (Prod.map f f) }

def HandResult.relabel (f : Card → Card) (result : HandResult) : HandResult :=
  { result with
    board := result.board.map f
    seats := result.seats.map (SeatOutcome.relabel f) }

def EngineEvent.relabel (f : Card → Card) : EngineEvent → EngineEvent
  | .handStarted handId dealer deckSeed => .handStarted handId dealer deckSeed
  | .holeCardsDealt seat cards => .holeCardsDealt seat (Prod.map f f cards)
  | .boardDealt street cards => .boardDealt street (cards.map f)
  | .actionTaken seat action potTotal => .actionTaken seat action potTotal
  | .playerAllIn seat totalCommitted => .playerAllIn seat totalCommitted
  | .handEnded handId result => .handEnded handId (result.relabel f)

def Output.relabel (f : Card → Card) : Output n → Output n
  | .event reported => .event (reported.relabel f)
  | .notify reported => .notify (reported.relabel f)
  | .prompt d obs => .prompt (d.relabel f) (obs.relabel f)

def RoundOutcome.relabel (f : Card → Card) : RoundOutcome n → RoundOutcome n
  | .winner seat s rest => .winner seat (s.relabel f) rest
  | .ended s rest => .ended (s.relabel f) rest
  | .waiting => .waiting
  | .panicked => .panicked
  | .spinning => .spinning

def Answer.relabel (f : Card → Card) : Answer n → Answer n
  | .winner seat s => .winner seat (s.relabel f)
  | .next s hasResponded current => .next (s.relabel f) hasResponded current
  | .panicked => .panicked

def HandOutcome.relabel (f : Card → Card) : HandOutcome n → HandOutcome n
  | .finished result players chipDeltas rest =>
    .finished (result.relabel f) (fun i => (players i).relabel f) chipDeltas rest
  | .waiting => .waiting
  | .panicked => .panicked
  | .spinning => .spinning

/-- A hand with its cards relabelled. -/
def relabelHand (f : Card → Card) (hand : List (Output n) × HandOutcome n) :
    List (Output n) × HandOutcome n :=
  (hand.1.map (Output.relabel f), hand.2.relabel f)

/-- The deck with its cards relabelled. -/
def relabelDeck (f : Card → Card) (deck : Deck) : Deck := { deck with cards := f ∘ deck.cards }

/-- The evaluator ranks relabelled cards alike. -/
def Engine.Overlooks (e : Engine) (f : Card → Card) : Prop :=
  ∀ cards, e.evaluator.rank7 (cards.map f) = e.evaluator.rank7 cards

/-! ## Dealing -/

section Deal

variable (f : Card → Card)

theorem relabel_setPlayer (s : GameState n) (seat : Fin n) (p : PlayerState) :
    (s.relabel f).setPlayer seat (p.relabel f) = (s.setPlayer seat p).relabel f := by
  simp only [GameState.setPlayer, GameState.relabel, GameState.mk.injEq, true_and, and_true]
  funext i
  by_cases hi : i = seat
  · subst hi
    simp
  · simp [hi]

theorem relabel_extendBoard (s : GameState n) (cards : List Card) :
    (s.relabel f).extendBoard (cards.map f) = (s.extendBoard cards).relabel f := by
  simp [GameState.extendBoard, GameState.relabel]

theorem relabel_beginStreet (s : GameState n) (street : Street) :
    e.beginStreet (s.relabel f) street = (e.beginStreet s street).relabel f := rfl

theorem deal_relabel (deck : Deck) :
    (relabelDeck f deck).deal = deck.deal.map fun dealt => (f dealt.1, relabelDeck f dealt.2) := by
  by_cases h : deck.cursor < 52
  · rw [Deck.deal, Deck.deal, dif_pos h, dif_pos (by exact h)]
    rfl
  · rw [Deck.deal, Deck.deal, dif_neg h, dif_neg (by exact h)]
    rfl

theorem dealMany_relabel (deck : Deck) (count : ℕ) :
    (relabelDeck f deck).dealMany count =
      (deck.dealMany count).map fun dealt => (dealt.1.map f, relabelDeck f dealt.2) := by
  induction count generalizing deck with
  | zero => rfl
  | succ count ih =>
    simp only [Deck.dealMany, deal_relabel, Option.bind_eq_bind]
    cases deck.deal with
    | none => rfl
    | some first =>
      simp only [Option.map_some, Option.bind_some, ih]
      cases first.2.dealMany count <;> rfl

theorem dealBoardCards_relabel (s : GameState n) (deck : Deck) (count : ℕ) (street : Street) :
    Engine.dealBoardCards (s.relabel f) (relabelDeck f deck) count street =
      (Engine.dealBoardCards s deck count street).map fun dealt =>
        (dealt.1.relabel f, relabelDeck f dealt.2.1, dealt.2.2.relabel f) := by
  simp only [Engine.dealBoardCards, dealMany_relabel, Option.bind_eq_bind]
  cases deck.dealMany count with
  | none => rfl
  | some dealt =>
    simp only [Option.map_some, Option.bind_some, relabel_extendBoard]
    rfl

theorem dealHoleCards_relabel (seats : List (Fin n)) (s : GameState n) (deck : Deck) :
    Engine.dealHoleCards seats (s.relabel f) (relabelDeck f deck) =
      (Engine.dealHoleCards seats s deck).map fun dealt =>
        (dealt.1.relabel f, relabelDeck f dealt.2.1, dealt.2.2.map (EngineEvent.relabel f)) := by
  induction seats generalizing s deck with
  | nil => rfl
  | cons i seats ih =>
    simp only [Engine.dealHoleCards, Option.bind_eq_bind]
    by_cases hin : (s.players i).stillIn
    · rw [if_pos hin, if_pos (by exact hin), deal_relabel]
      cases deck.deal with
      | none => rfl
      | some first =>
        simp only [Option.map_some, Option.bind_some, deal_relabel]
        cases first.2.deal with
        | none => rfl
        | some second =>
          have hset : (s.relabel f).setPlayer i
              { (s.relabel f).players i with holeCards := some (f first.1, f second.1) } =
              (s.setPlayer i
                { s.players i with holeCards := some (first.1, second.1) }).relabel f :=
            relabel_setPlayer f s i { s.players i with holeCards := some (first.1, second.1) }
          simp only [Option.map_some, Option.bind_some, hset, ih]
          cases Engine.dealHoleCards seats _ second.2 <;> rfl
    · rw [if_neg hin, if_neg (by exact hin)]
      exact ih s deck

theorem holeCardEvents_relabel (seats : List (Fin n)) (s : GameState n) (deck : Deck) :
    Engine.holeCardEvents seats (s.relabel f) (relabelDeck f deck) =
      (Engine.holeCardEvents seats s deck).map (EngineEvent.relabel f) := by
  induction seats generalizing s deck with
  | nil => rfl
  | cons i seats ih =>
    rw [Engine.holeCardEvents, Engine.holeCardEvents]
    by_cases hin : (s.players i).stillIn
    · rw [if_pos hin, if_pos (by exact hin), deal_relabel]
      cases deck.deal with
      | none => rfl
      | some first =>
        simp only [Option.map_some, deal_relabel]
        cases first.2.deal with
        | none => rfl
        | some second =>
          have hset : (s.relabel f).setPlayer i
              { (s.relabel f).players i with holeCards := some (f first.1, f second.1) } =
              (s.setPlayer i
                { s.players i with holeCards := some (first.1, second.1) }).relabel f :=
            relabel_setPlayer f s i { s.players i with holeCards := some (first.1, second.1) }
          simp only [Option.map_some, hset, ih, List.map_cons]
          rfl
    · rw [if_neg hin, if_neg (by exact hin)]
      exact ih s deck

theorem foldDeadHands_relabel (seatKinds : Option (List SeatKind)) (s : GameState n) :
    Engine.foldDeadHands seatKinds (s.relabel f) =
      (Engine.foldDeadHands seatKinds s).map (GameState.relabel f) := by
  cases seatKinds with
  | none => rfl
  | some kinds =>
    have hplayers : ∀ i : Fin n, (if Engine.isDeadHand kinds i && (s.players i).status ≠ .out then
          { s.players i with status := .folded }
        else s.players i).relabel f =
        if Engine.isDeadHand kinds i && (s.players i).status ≠ .out then
          { (s.players i).relabel f with status := .folded }
        else (s.players i).relabel f := fun i => apply_ite (PlayerState.relabel f) _ _ _
    simp only [Engine.foldDeadHands]
    split
    · rfl
    · simp only [Option.map_some, GameState.relabel, hplayers]
      rfl

theorem dealRemainingStreets_relabel (streets : List (Street × ℕ)) (s : GameState n)
    (deck : Deck) :
    Engine.dealRemainingStreets streets (s.relabel f) (relabelDeck f deck) =
      ((Engine.dealRemainingStreets streets s deck).1.map (EngineEvent.relabel f),
        (Engine.dealRemainingStreets streets s deck).2.map fun dealt =>
          (dealt.1.relabel f, relabelDeck f dealt.2)) := by
  have hlength : ∀ s : GameState n, (s.relabel f).board.length = s.board.length :=
    fun s => List.length_map _
  induction streets generalizing s deck with
  | nil => rfl
  | cons head streets ih =>
    obtain ⟨street, count⟩ := head
    simp only [Engine.dealRemainingStreets, hlength, dealBoardCards_relabel]
    split_ifs
    · rfl
    · cases Engine.dealBoardCards s deck (min count (5 - s.board.length)) street with
      | none => rfl
      | some dealt =>
        simp only [Option.map_some, ih, List.map_cons]
    · exact ih s deck

theorem dealRemainingBoard_relabel (s : GameState n) (deck : Deck) :
    Engine.dealRemainingBoard (s.relabel f) (relabelDeck f deck) =
      ((Engine.dealRemainingBoard s deck).1.map (EngineEvent.relabel f),
        (Engine.dealRemainingBoard s deck).2.map fun dealt =>
          (dealt.1.relabel f, relabelDeck f dealt.2)) := by
  have hlength : ∀ s : GameState n, (s.relabel f).board.length = s.board.length :=
    fun s => List.length_map _
  simp only [Engine.dealRemainingBoard, hlength, dealRemainingStreets_relabel]
  split_ifs
  · rfl
  · refine Prod.ext rfl ?_
    cases (Engine.dealRemainingStreets Engine.postflop s deck).2 with
    | none => rfl
    | some dealt =>
      simp only [Option.map_some, Option.bind_eq_bind, Option.bind_some, hlength,
        dealMany_relabel]
      cases dealt.2.dealMany (5 - dealt.1.board.length) with
      | none => rfl
      | some last =>
        simp only [Option.map_some, Option.bind_some, relabel_extendBoard]

end Deal

/-! ## Forced bets -/

section Setup

variable (f : Card → Card)

/-- Events about chips show no cards. -/
theorem relabel_allIn {events : List EngineEvent}
    (h : ∀ event ∈ events, ∃ seat total, event = .playerAllIn seat total) :
    events.map (EngineEvent.relabel f) = events := by
  refine (List.map_congr_left fun event hevent => ?_).trans (List.map_id events)
  obtain ⟨seat, total, rfl⟩ := h event hevent
  rfl

theorem postAnte_relabel (p : PlayerState) :
    e.postAnte (p.relabel f) = (e.postAnte p).relabel f := by
  simp only [Engine.postAnte, PlayerState.relabel_putAllIn]
  rw [apply_ite (PlayerState.relabel f)]
  rfl

theorem antesPosted_relabel (s : GameState n) :
    antesPosted e (s.relabel f) = ((antesPosted e s).1.relabel f, (antesPosted e s).2) := by
  have hplayers : ∀ i, e.postAnte ((s.relabel f).players i) =
      (e.postAnte (s.players i)).relabel f := fun i => postAnte_relabel f (s.players i)
  rw [antesPosted, antesPosted]
  split
  · simp only [Engine.postAntes, hplayers]
    rfl
  · rfl

theorem post_relabel (s : GameState n) (seat : Fin n) (amount : ℕ) :
    Engine.post (s.relabel f) seat amount =
      ((Engine.post s seat amount).1.relabel f, (Engine.post s seat amount).2) := by
  have hplayer : ((s.relabel f).players seat).putAllIn amount =
      ((s.players seat).putAllIn amount).relabel f := PlayerState.relabel_putAllIn f _ amount
  simp only [Engine.post, hplayer, relabel_setPlayer]
  rfl

theorem postBlinds_relabel (s : GameState n) :
    e.postBlinds (s.relabel f) =
      (e.postBlinds s).map fun posted => (posted.1.relabel f, posted.2) := by
  by_cases h : sbSeat s < n ∧ bbSeat s < n
  · rw [Engine.postBlinds, Engine.postBlinds, dif_pos h, dif_pos (by exact h)]
    simp only [Option.map_some, Option.some.injEq]
    have hsb : Engine.post (s.relabel f) ⟨sbSeat (s.relabel f), h.1⟩ e.rules.smallBlind =
        ((Engine.post s ⟨sbSeat s, h.1⟩ e.rules.smallBlind).1.relabel f,
          (Engine.post s ⟨sbSeat s, h.1⟩ e.rules.smallBlind).2) := post_relabel f s _ _
    rw [hsb, post_relabel]
    rfl
  · rw [Engine.postBlinds, Engine.postBlinds, dif_neg h, dif_neg (by exact h)]
    rfl

/-- The setup of a hand. -/
theorem setupHand_relabel (deck : Deck) (s : GameState n) (seatKinds : Option (List SeatKind)) :
    setupHand e (relabelDeck f deck) (s.relabel f) seatKinds =
      (setupHand e deck s seatKinds).map fun setup =>
        (setup.1.relabel f, relabelDeck f setup.2.1, setup.2.2.1,
          setup.2.2.2.map (EngineEvent.relabel f)) := by
  have hantes := relabel_allIn f (antesPosted_allIn (e := e) s)
  simp only [setupHand, antesPosted_relabel, postBlinds_relabel, Option.bind_eq_bind]
  cases hpost : e.postBlinds (antesPosted e s).1 with
  | none => rfl
  | some posted =>
    have hblinds := relabel_allIn f (postBlinds_allIn hpost)
    simp only [Option.map_some, Option.bind_some, dealHoleCards_relabel]
    cases Engine.dealHoleCards (List.finRange n) posted.1 deck with
    | none => rfl
    | some dealt =>
      simp only [Option.map_some, Option.bind_some, foldDeadHands_relabel]
      cases Engine.foldDeadHands seatKinds dealt.1 with
      | none => rfl
      | some folded =>
        simp only [Option.map_some, Option.bind_some, List.map_append, hantes, hblinds]
        rfl

theorem setupEvents_relabel (deck : Deck) (s : GameState n) :
    setupEvents e (relabelDeck f deck) (s.relabel f) =
      (setupEvents e deck s).map (EngineEvent.relabel f) := by
  have hantes := relabel_allIn f (antesPosted_allIn (e := e) s)
  simp only [setupEvents, antesPosted_relabel, postBlinds_relabel]
  cases hpost : e.postBlinds (antesPosted e s).1 with
  | none => exact hantes.symm
  | some posted =>
    have hblinds := relabel_allIn f (postBlinds_allIn hpost)
    simp only [Option.map_some, holeCardEvents_relabel, List.map_append, hantes, hblinds]

end Setup

/-! ## Betting rounds -/

section Betting

variable (f : Card → Card)

/-- An action is carried out without looking at cards. -/
theorem performAction_relabel (s : GameState n) (seat : Fin n) (action : Action) :
    Engine.performAction (s.relabel f) seat action =
      ((Engine.performAction s seat action).1.relabel f,
        (Engine.performAction s seat action).2) := by
  cases action with
  | fold =>
    refine Prod.ext ?_ rfl
    exact relabel_setPlayer f s seat { s.players seat with status := .folded }
  | check => rfl
  | call =>
    have hplayer : ((s.relabel f).players seat).putAllIn
        ((s.relabel f).currentBet - ((s.relabel f).players seat).betThisStreet) =
        ((s.players seat).putAllIn (s.currentBet - (s.players seat).betThisStreet)).relabel f :=
      PlayerState.relabel_putAllIn f _ _
    simp only [Engine.performAction, hplayer, relabel_setPlayer]
    rfl
  | raise amount =>
    have hplayer : ((s.relabel f).players seat).put
        (amount - ((s.relabel f).players seat).betThisStreet) =
        ((s.players seat).put (amount - (s.players seat).betThisStreet)).relabel f := rfl
    simp only [Engine.performAction, hplayer, relabel_setPlayer]
    rfl
  | allIn =>
    have hset : (s.relabel f).setPlayer seat { ((s.relabel f).players seat).put
          ((s.relabel f).players seat).stack with status := .allIn } =
        (s.setPlayer seat
          { (s.players seat).put (s.players seat).stack with status := .allIn }).relabel f :=
      relabel_setPlayer f s seat
        { (s.players seat).put (s.players seat).stack with status := .allIn }
    simp only [Engine.performAction, hset]
    -- relabelling commutes with both case distinctions
    let relabelled : GameState n × Bool × List EngineEvent →
        GameState n × Bool × List EngineEvent := fun r => (r.1.relabel f, r.2)
    refine Eq.symm ((apply_ite relabelled _ _ _).trans ?_)
    rw [apply_ite relabelled]
    rfl

theorem observation_relabel (d : Decision n) :
    (d.relabel f).observation e = (d.observation e).map (Observation.relabel f) := by
  simp only [Decision.observation, Decision.relabel, relabel_players, PlayerState.relabel,
    Option.map_map]
  rfl

theorem acted_relabel (d : Decision n) (raw : Action) :
    (d.relabel f).acted raw = (d.acted raw).relabel f :=
  congrArg Prod.fst (performAction_relabel f d.state d.seat _)

theorem respondedAfter_relabel (d : Decision n) (raw : Action) :
    (d.relabel f).respondedAfter raw = d.respondedAfter raw := by
  have h := performAction_relabel f d.state d.seat (Engine.normalizeAction d.state d.seat raw)
  exact congrArg (fun r => Engine.respond d.hasResponded d.seat r) (congrArg (fun r => r.2.1) h)

theorem map_event_relabel (events : List EngineEvent) :
    (events.map Output.event : List (Output n)).map (Output.relabel f) =
      (events.map (EngineEvent.relabel f)).map .event := by
  rw [List.map_map, List.map_map]
  rfl

omit f in
/-- Who is left decides how the hand goes on. -/
theorem answer_snd (d : Decision n) (raw : Action) :
    (d.answer raw).2 =
      if (d.acted raw).playersStillIn = 1 then
        (d.acted raw).firstStillIn.elim .panicked fun winner => .winner winner (d.acted raw)
      else .next (d.acted raw) (d.respondedAfter raw) (ringNext d.seat) := by
  rcases d.answer_cases raw with ⟨hone, winner, hwinner, hout⟩ | ⟨hone, hwinner, hout⟩ |
    ⟨hmany, hout⟩
  · rw [hout, if_pos hone, hwinner]
    rfl
  · rw [hout, if_pos hone, hwinner]
    rfl
  · rw [hout, if_neg hmany]

/-- An answer leads on in the same way. -/
theorem answer_relabel (d : Decision n) (raw : Action) :
    (d.relabel f).answer raw =
      ((d.answer raw).1.map (Output.relabel f), (d.answer raw).2.relabel f) := by
  have hin : ((d.relabel f).acted raw).playersStillIn = (d.acted raw).playersStillIn := by
    rw [acted_relabel]
    rfl
  have hfirst : ((d.relabel f).acted raw).firstStillIn = (d.acted raw).firstStillIn := by
    rw [acted_relabel]
    rfl
  refine Prod.ext ?_ ?_
  · have hbefore : (Engine.performAction (d.relabel f).state (d.relabel f).seat
        (Engine.normalizeAction (d.relabel f).state (d.relabel f).seat raw)).2.2 =
        (Engine.performAction d.state d.seat (Engine.normalizeAction d.state d.seat raw)).2.2 :=
      congrArg (fun r => r.2.2) (performAction_relabel f d.state d.seat _)
    simp only [answer_fst, hbefore, acted_relabel, List.map_append, map_event_relabel,
      relabel_allIn f (performAction_allIn d.state d.seat _)]
    rfl
  · rw [answer_snd, answer_snd, hin, hfirst, acted_relabel, respondedAfter_relabel]
    split
    · cases (d.acted raw).firstStillIn <;> rfl
    · rfl

theorem seek_relabel (s : GameState n) (hasResponded : Fin n → Bool) (current : Fin n) :
    seek (s.relabel f) hasResponded n current = seek s hasResponded n current := by
  rw [seek_eq, seek_eq]
  rfl

/-- A betting round asks the same seats the same questions. -/
theorem runBettingRound_relabel (answers : List Action) (s : GameState n)
    (hasResponded : Fin n → Bool) (current : Fin n) :
    runBettingRound e answers (s.relabel f) hasResponded current =
      ((runBettingRound e answers s hasResponded current).1.map (Output.relabel f),
        (runBettingRound e answers s hasResponded current).2.relabel f) := by
  refine runBettingRound_cases (fun answers s hasResponded current round =>
    runBettingRound e answers (s.relabel f) hasResponded current =
      (round.1.map (Output.relabel f), round.2.relabel f)) ?_ ?_ ?_ ?_
        answers s hasResponded current
  · intro answers s hasResponded current hseek
    rw [runBettingRound_of_allDone ((seek_relabel f s hasResponded current).trans hseek)]
    rfl
  · intro answers s hasResponded current seat hseek hobs
    have hobs' := @observation_relabel n e f ⟨s.setActionOn (some seat), hasResponded, seat⟩
    rw [hobs] at hobs'
    rw [runBettingRound_blind ((seek_relabel f s hasResponded current).trans hseek) hobs']
    rfl
  · intro s hasResponded current seat obs hseek hobs
    have hobs' := @observation_relabel n e f ⟨s.setActionOn (some seat), hasResponded, seat⟩
    rw [hobs] at hobs'
    rw [runBettingRound_nil ((seek_relabel f s hasResponded current).trans hseek) hobs']
    rfl
  · intro raw answers s hasResponded current seat obs hseek hobs ih
    have hobs' := @observation_relabel n e f ⟨s.setActionOn (some seat), hasResponded, seat⟩
    have hanswer := answer_relabel f ⟨s.setActionOn (some seat), hasResponded, seat⟩ raw
    have hgoOn : ∀ answer : Answer n,
        (Decision.answer ⟨s.setActionOn (some seat), hasResponded, seat⟩ raw).2 = answer →
          (answer.relabel f).goOn e answers =
            ((answer.goOn e answers).1.map (Output.relabel f),
              (answer.goOn e answers).2.relabel f) := by
      intro answer hnext
      cases answer with
      | winner winner t => rfl
      | next t hasResponded current => exact ih t hasResponded current hnext
      | panicked => rfl
    rw [hobs] at hobs'
    rw [runBettingRound_cons ((seek_relabel f s hasResponded current).trans hseek) hobs',
      show Decision.answer ⟨(s.relabel f).setActionOn (some seat), hasResponded, seat⟩ raw = _
        from hanswer]
    simp only [hgoOn _ rfl, List.map_append, List.map_cons]
    rfl

end Betting

/-! ## Awards -/

section Award

variable {f : Card → Card}

theorem showdownRanks_relabel (h : e.Overlooks f) (s : GameState n) (eligible : List (Fin n)) :
    e.showdownRanks (s.relabel f) eligible = e.showdownRanks s eligible := by
  have hrank : ∀ seat, (((s.relabel f).players seat).holeCards.map fun hole =>
      (seat, e.evaluator.rank7 (hole.1 :: hole.2 :: (s.relabel f).board))) =
      (s.players seat).holeCards.map fun hole =>
        (seat, e.evaluator.rank7 (hole.1 :: hole.2 :: s.board)) := by
    intro seat
    rw [relabel_players, PlayerState.relabel, Option.map_map]
    refine congrArg ((s.players seat).holeCards.map ·) (funext fun hole => ?_)
    exact congrArg (seat, ·) (h (hole.1 :: hole.2 :: s.board))
  simp only [Engine.showdownRanks, hrank]

theorem awardPots_relabel (h : e.Overlooks f) (s : GameState n) (pots : List (ℕ × List (Fin n))) :
    e.awardPots (s.relabel f) pots = e.awardPots s pots := by
  have hpot : ∀ pot, e.awardPot (s.relabel f) pot = e.awardPot s pot := by
    intro pot
    simp only [Engine.awardPot, showdownRanks_relabel h]
    rfl
  induction pots with
  | nil => rfl
  | cons pot pots ih => simp only [Engine.awardPots, hpot, ih]

theorem buildShowdownPots_relabel (f : Card → Card) (s : GameState n) :
    buildShowdownPots (s.relabel f).players = buildShowdownPots s.players := by
  have hcontributors : ∀ level, contributors (s.relabel f).players level =
      contributors s.players level := fun _ => rfl
  have heligible : ∀ level, eligibleSeats (s.relabel f).players level =
      eligibleSeats s.players level := fun _ => rfl
  have hfrom : ∀ prev levels pots, buildPotsFrom (s.relabel f).players prev levels pots =
      buildPotsFrom s.players prev levels pots := by
    intro prev levels pots
    induction levels generalizing prev pots with
    | nil => rfl
    | cons level levels ih => simp only [buildPotsFrom, hcontributors, heligible, ih]
  have hlevels : commitmentLevels (s.relabel f).players = commitmentLevels s.players := by
    simp only [commitmentLevels, relabel_players, PlayerState.relabel_totalCommitted]
  rw [buildShowdownPots, hfrom, hlevels, buildShowdownPots]

/-- A showdown pays the same seats out of the same pots. -/
theorem resolveShowdown_relabel (h : e.Overlooks f) (s : GameState n) :
    e.resolveShowdown (s.relabel f) =
      (e.resolveShowdown s).map fun settled => (settled.1.relabel f, settled.2) := by
  have hlength : (s.relabel f).board.length = s.board.length := List.length_map _
  rw [Engine.resolveShowdown, Engine.resolveShowdown, hlength, buildShowdownPots_relabel,
    awardPots_relabel h]
  split
  · cases e.awardPots s (buildShowdownPots s.players) <;> rfl
  · rfl

theorem awardUncontested_relabel (f : Card → Card) (s : GameState n) (winner : Fin n) :
    Engine.awardUncontested (s.relabel f) winner =
      ((Engine.awardUncontested s winner).1.relabel f, (Engine.awardUncontested s winner).2) := by
  have hplayers : ∀ p : PlayerState, ∀ i total, (if i = winner then
        { p with stack := p.stack + total } else p).relabel f =
      if i = winner then { p.relabel f with stack := p.stack + total } else p.relabel f :=
    fun p i total => apply_ite (PlayerState.relabel f) _ _ _
  have hcollect : collectStreetBets (s.relabel f) = (collectStreetBets s).relabel f := rfl
  refine Prod.ext ?_ rfl
  simp only [Engine.awardUncontested, hcollect]
  simp only [GameState.relabel, hplayers]
  rfl

theorem settle_relabel (f : Card → Card) (s : GameState n) (chipDeltas : Fin n → ℤ)
    (rest : List Action) :
    settle (s.relabel f) chipDeltas rest = (settle s chipDeltas rest).relabel f := by
  have hresult : buildResult s.handId (s.relabel f) chipDeltas =
      (buildResult s.handId s chipDeltas).relabel f := by
    simp only [buildResult, HandResult.relabel, List.map_map]
    rfl
  rw [settle, settle]
  exact congrArg (fun result => HandOutcome.finished result _ chipDeltas rest) hresult

/-! ## Hands -/

theorem relabelHand_append (outputs : List (Output n)) (later : List (Output n) × HandOutcome n) :
    relabelHand f (outputs ++ later.1, later.2) =
      (outputs.map (Output.relabel f) ++ (relabelHand f later).1, (relabelHand f later).2) := by
  rw [relabelHand, List.map_append]
  rfl

theorem runShowdown_relabel (h : e.Overlooks f) (deck : Deck) (s : GameState n)
    (answers : List Action) :
    runShowdown e (relabelDeck f deck) (s.relabel f) answers =
      relabelHand f (runShowdown e deck s answers) := by
  simp only [runShowdown, dealRemainingBoard_relabel, relabelHand, map_event_relabel]
  refine Prod.ext rfl ?_
  cases (Engine.dealRemainingBoard s deck).2 with
  | none => rfl
  | some dealt =>
    simp only [Option.map_some, resolveShowdown_relabel h]
    cases e.resolveShowdown dealt.1 with
    | none => rfl
    | some settled => exact settle_relabel f settled.1 settled.2 answers

/-- After relabelled rounds, hands that go on relabelled are relabelled. -/
theorem afterRound_relabel {proceed proceed' : GameState n → List Action →
      List (Output n) × HandOutcome n}
    (hproceed : ∀ s answers, proceed' (s.relabel f) answers = relabelHand f (proceed s answers))
    (round : List (Output n) × RoundOutcome n) :
    afterRound (round.1.map (Output.relabel f), round.2.relabel f) proceed' =
      relabelHand f (afterRound round proceed) := by
  obtain ⟨outputs, outcome⟩ := round
  cases outcome with
  | winner winner s answers =>
    refine Prod.ext rfl ?_
    simp only [afterRound, RoundOutcome.relabel, awardUncontested_relabel]
    exact settle_relabel f _ _ answers
  | ended s answers =>
    have hlater := hproceed (collectStreetBets s) answers
    refine Eq.trans ?_ (relabelHand_append outputs _).symm
    rw [← hlater]
    rfl
  | waiting => rfl
  | panicked => rfl
  | spinning => rfl

theorem runPostflop_relabel (h : e.Overlooks f) (streets : List (Street × ℕ)) (deck : Deck)
    (s : GameState n) (answers : List Action) :
    runPostflop e streets (relabelDeck f deck) (s.relabel f) answers =
      relabelHand f (runPostflop e streets deck s answers) := by
  induction streets generalizing deck s answers with
  | nil => exact runShowdown_relabel h deck s answers
  | cons head streets ih =>
    obtain ⟨street, count⟩ := head
    have hin : (s.relabel f).playersStillIn = s.playersStillIn := rfl
    simp only [runPostflop, hin]
    split
    · exact runShowdown_relabel h deck s answers
    · rw [relabel_beginStreet, dealBoardCards_relabel]
      cases Engine.dealBoardCards (e.beginStreet s street) deck count street with
      | none => rfl
      | some dealt =>
        obtain ⟨t, deck', event⟩ := dealt
        simp only [Option.map_some]
        have hfirst : Engine.firstToAct (t.relabel f) = Engine.firstToAct t := rfl
        rw [hfirst]
        cases Engine.firstToAct t with
        | none =>
          have hlater := ih deck' (collectStreetBets t) answers
          refine Eq.trans ?_ (relabelHand_append [.event event, .notify event] _).symm
          rw [← hlater]
          rfl
        | some first =>
          have hlater := afterRound_relabel (fun s answers => ih deck' s answers)
            (runBettingRound e answers t (fun _ => false) first)
          refine Eq.trans ?_ (relabelHand_append [.event event, .notify event] _).symm
          rw [← hlater, ← runBettingRound_relabel]
          rfl

theorem awardUncontestedAndFinish_relabel (s : GameState n) (answers : List Action) :
    awardUncontestedAndFinish (s.relabel f) answers =
      (awardUncontestedAndFinish s answers).relabel f := by
  have hfirst : (s.relabel f).firstStillIn = s.firstStillIn := rfl
  simp only [awardUncontestedAndFinish, hfirst, awardUncontested_relabel]
  cases s.firstStillIn with
  | none => rfl
  | some winner => exact settle_relabel f _ _ answers

theorem reportEnd_relabel (hand : List (Output n) × HandOutcome n) :
    reportEnd (relabelHand f hand) = relabelHand f (reportEnd hand) := by
  obtain ⟨outputs, outcome⟩ := hand
  cases outcome with
  | finished result players chipDeltas rest =>
    simp only [reportEnd, relabelHand, HandOutcome.relabel, List.map_append]
    rfl
  | waiting => rfl
  | panicked => rfl
  | spinning => rfl

/-- A hand from a relabelled deck is the relabelled hand. -/
theorem runHand_relabel (h : e.Overlooks f) (handId deckSeed : ℕ) (order : Fin 52 → Card)
    (startingStacks : List ℕ) (dealer : ℕ) (seatKinds : Option (List SeatKind))
    (answers : List Action) :
    runHand e handId deckSeed (f ∘ order) startingStacks dealer seatKinds answers =
      relabelHand f
        (runHand e handId deckSeed order startingStacks dealer seatKinds answers) := by
  have hsetup := @setupHand_relabel _ e f (.new order) (e.initState handId startingStacks dealer)
    seatKinds
  have hdeck : relabelDeck f (.new order) = .new (f ∘ order) := rfl
  have hinit : (e.initState handId startingStacks dealer).relabel f =
      e.initState handId startingStacks dealer := rfl
  have hevents := @setupEvents_relabel _ e f (.new order) (e.initState handId startingStacks dealer)
  rw [hdeck, hinit] at hsetup hevents
  simp only [runHand, hsetup]
  cases setupHand e (.new order) (e.initState handId startingStacks dealer) seatKinds with
  | none =>
    simp only [Option.map_none, hevents, ← map_event_relabel]
    rfl
  | some setup =>
    obtain ⟨s, deck, canonicalBb, events⟩ := setup
    have hnext : nextActiveAfter canonicalBb (s.relabel f).players =
        nextActiveAfter canonicalBb s.players := rfl
    simp only [Option.map_some, hnext]
    rw [← reportEnd_relabel]
    refine congrArg reportEnd ?_
    refine Eq.trans ?_ (relabelHand_append
      (.event (.handStarted handId dealer deckSeed) :: events.map .event) _).symm
    rw [List.map_cons, map_event_relabel]
    cases nextActiveAfter canonicalBb s.players with
    | none =>
      simp only [relabelHand, awardUncontestedAndFinish_relabel]
      rfl
    | some first =>
      have hlater := afterRound_relabel (runPostflop_relabel h Engine.postflop deck)
        (runBettingRound e answers s (fun _ => false) first)
      rw [← runBettingRound_relabel] at hlater
      simp only [runStreets]
      rw [← hlater]
      rfl

end Award

end VibePoker.Game
