import VibePoker.Game.Relabel

/-!
# Hands with the cards face down

The engine deals cards and ranks them at the showdown, and looks at none before. What a hand
does up to its award is the same from every deck, except for the faces of the cards.

## Main definitions

* `GameState.faceDown`, `Output.faceDown` — a state, an output without the faces of its cards
* `faceDownHand` — a whole hand, also without what the award pays

## Main results

* `runBettingRound_faceDown` — betting is blind
* `runHand_faceDown` — a hand of one deck is that of any other one, face down
-/

namespace VibePoker.Game

open VibePoker.Core VibePoker.Math

variable {n : ℕ} {e : Engine}

/-! ## Turning the cards -/

/-- The back of a card. -/
def back : Card := ⟨0⟩

namespace PlayerState

def faceDown (p : PlayerState) : PlayerState :=
  { p with holeCards := p.holeCards.map fun _ => (back, back) }

@[simp] theorem faceDown_stack (p : PlayerState) : p.faceDown.stack = p.stack := rfl

@[simp] theorem faceDown_status (p : PlayerState) : p.faceDown.status = p.status := rfl

@[simp] theorem faceDown_betThisStreet (p : PlayerState) :
    p.faceDown.betThisStreet = p.betThisStreet := rfl

@[simp] theorem faceDown_totalCommitted (p : PlayerState) :
    p.faceDown.totalCommitted = p.totalCommitted := rfl

@[simp] theorem faceDown_stillIn (p : PlayerState) : p.faceDown.stillIn = p.stillIn := rfl

end PlayerState

def GameState.faceDown (s : GameState n) : GameState n :=
  { s with
    board := s.board.map fun _ => back
    players := fun i => (s.players i).faceDown }

@[simp] theorem faceDown_players (s : GameState n) (i : Fin n) :
    s.faceDown.players i = (s.players i).faceDown := rfl

@[simp] theorem faceDown_currentBet (s : GameState n) : s.faceDown.currentBet = s.currentBet := rfl

@[simp] theorem faceDown_minRaiseIncrement (s : GameState n) :
    s.faceDown.minRaiseIncrement = s.minRaiseIncrement := rfl

@[simp] theorem faceDown_cumulativeShortIncrement (s : GameState n) :
    s.faceDown.cumulativeShortIncrement = s.cumulativeShortIncrement := rfl

def Decision.faceDown (d : Decision n) : Decision n := { d with state := d.state.faceDown }

def Observation.faceDown (obs : Observation) : Observation :=
  { obs with
    holeCards := (back, back)
    board := obs.board.map fun _ => back }

/-- A result without the faces of the cards and without what the award paid. -/
def HandResult.faceDown (result : HandResult) : HandResult :=
  { result with
    board := result.board.map fun _ => back
    seats := result.seats.map fun o =>
      { o with holeCards := o.holeCards.map (fun _ => (back, back)), chipDelta := 0 } }

/-- An event without what depends on the deck: its seed, the faces of the cards, and the
award. -/
def EngineEvent.faceDown : EngineEvent → EngineEvent
  | .handStarted handId dealer _ => .handStarted handId dealer 0
  | .holeCardsDealt seat _ => .holeCardsDealt seat (back, back)
  | .boardDealt street cards => .boardDealt street (cards.map fun _ => back)
  | .actionTaken seat action potTotal => .actionTaken seat action potTotal
  | .playerAllIn seat totalCommitted => .playerAllIn seat totalCommitted
  | .handEnded handId result => .handEnded handId result.faceDown

def Output.faceDown : Output n → Output n
  | .event reported => .event reported.faceDown
  | .notify reported => .notify reported.faceDown
  | .prompt d obs => .prompt d.faceDown obs.faceDown

/-- How a hand came out, without the cards and what the award paid. -/
def HandOutcome.faceDown : HandOutcome n → HandOutcome n
  | .finished result players _ rest =>
    .finished result.faceDown (fun i => { (players i).faceDown with stack := 0 }) (fun _ => 0) rest
  | .waiting => .waiting
  | .panicked => .panicked
  | .spinning => .spinning

/-- A hand without what depends on the deck. -/
def faceDownHand (hand : List (Output n) × HandOutcome n) : List (Output n) × HandOutcome n :=
  (hand.1.map Output.faceDown, hand.2.faceDown)

/-- The deck with its cards face down. -/
def faceDownDeck (deck : Deck) : Deck := { deck with cards := fun _ => back }

def RoundOutcome.faceDown : RoundOutcome n → RoundOutcome n
  | .winner seat s rest => .winner seat s.faceDown rest
  | .ended s rest => .ended s.faceDown rest
  | .waiting => .waiting
  | .panicked => .panicked
  | .spinning => .spinning

def Answer.faceDown : Answer n → Answer n
  | .winner seat s => .winner seat s.faceDown
  | .next s hasResponded current => .next s.faceDown hasResponded current
  | .panicked => .panicked

/-! ## The engine's operations on face-down cards -/

theorem faceDown_setPlayer (s : GameState n) (seat : Fin n) (p : PlayerState) :
    s.faceDown.setPlayer seat p.faceDown = (s.setPlayer seat p).faceDown :=
  relabel_setPlayer (fun _ => back) s seat p

theorem faceDown_extendBoard (s : GameState n) (cards : List Card) :
    s.faceDown.extendBoard (cards.map fun _ => back) = (s.extendBoard cards).faceDown :=
  relabel_extendBoard (fun _ => back) s cards

theorem faceDown_beginStreet (s : GameState n) (street : Street) :
    e.beginStreet s.faceDown street = (e.beginStreet s street).faceDown := rfl

theorem deal_faceDown (deck : Deck) :
    (faceDownDeck deck).deal = deck.deal.map fun dealt => (back, faceDownDeck dealt.2) :=
  deal_relabel (fun _ => back) deck

theorem dealMany_faceDown (deck : Deck) (count : ℕ) :
    (faceDownDeck deck).dealMany count =
      (deck.dealMany count).map fun dealt => (dealt.1.map fun _ => back, faceDownDeck dealt.2) :=
  dealMany_relabel (fun _ => back) deck count

theorem dealBoardCards_faceDown (s : GameState n) (deck : Deck) (count : ℕ) (street : Street) :
    Engine.dealBoardCards s.faceDown (faceDownDeck deck) count street =
      (Engine.dealBoardCards s deck count street).map fun dealt =>
        (dealt.1.faceDown, faceDownDeck dealt.2.1, dealt.2.2.faceDown) := by
  simp only [Engine.dealBoardCards, dealMany_faceDown, Option.bind_eq_bind]
  cases deck.dealMany count with
  | none => rfl
  | some dealt =>
    simp only [Option.map_some, Option.bind_some, faceDown_extendBoard]
    rfl

theorem dealHoleCards_faceDown (seats : List (Fin n)) (s : GameState n) (deck : Deck) :
    Engine.dealHoleCards seats s.faceDown (faceDownDeck deck) =
      (Engine.dealHoleCards seats s deck).map fun dealt =>
        (dealt.1.faceDown, faceDownDeck dealt.2.1, dealt.2.2.map EngineEvent.faceDown) := by
  induction seats generalizing s deck with
  | nil => rfl
  | cons i seats ih =>
    simp only [Engine.dealHoleCards, Option.bind_eq_bind]
    by_cases hin : (s.players i).stillIn
    · rw [if_pos hin, if_pos (by exact hin), deal_faceDown]
      cases deck.deal with
      | none => rfl
      | some first =>
        simp only [Option.map_some, Option.bind_some, deal_faceDown]
        cases first.2.deal with
        | none => rfl
        | some second =>
          have hset : s.faceDown.setPlayer i
              { s.faceDown.players i with holeCards := some (back, back) } =
              (s.setPlayer i
                { s.players i with holeCards := some (first.1, second.1) }).faceDown :=
            faceDown_setPlayer s i { s.players i with holeCards := some (first.1, second.1) }
          simp only [Option.map_some, Option.bind_some, hset, ih]
          cases Engine.dealHoleCards seats _ second.2 <;> rfl
    · rw [if_neg hin, if_neg (by exact hin)]
      exact ih s deck

theorem foldDeadHands_faceDown (seatKinds : Option (List SeatKind)) (s : GameState n) :
    Engine.foldDeadHands seatKinds s.faceDown =
      (Engine.foldDeadHands seatKinds s).map GameState.faceDown :=
  foldDeadHands_relabel (fun _ => back) seatKinds s

/-! ## Forced bets -/

/-- Turning the cards changes no event about chips. -/
theorem faceDown_allIn {events : List EngineEvent}
    (h : ∀ event ∈ events, ∃ seat total, event = .playerAllIn seat total) :
    events.map EngineEvent.faceDown = events := by
  refine (List.map_congr_left fun event hevent => ?_).trans (List.map_id events)
  obtain ⟨seat, total, rfl⟩ := h event hevent
  rfl

theorem antesPosted_faceDown (s : GameState n) :
    antesPosted e s.faceDown = ((antesPosted e s).1.faceDown, (antesPosted e s).2) :=
  antesPosted_relabel (fun _ => back) s

theorem postBlinds_faceDown (s : GameState n) :
    e.postBlinds s.faceDown =
      (e.postBlinds s).map fun posted => (posted.1.faceDown, posted.2) :=
  postBlinds_relabel (fun _ => back) s

/-- The setup of a hand. -/
theorem setupHand_faceDown (deck : Deck) (s : GameState n) (seatKinds : Option (List SeatKind)) :
    setupHand e (faceDownDeck deck) s.faceDown seatKinds =
      (setupHand e deck s seatKinds).map fun setup =>
        (setup.1.faceDown, faceDownDeck setup.2.1, setup.2.2.1,
          setup.2.2.2.map EngineEvent.faceDown) := by
  have hantes : (antesPosted e s).2.map EngineEvent.faceDown = (antesPosted e s).2 :=
    faceDown_allIn (antesPosted_allIn s)
  simp only [setupHand, antesPosted_faceDown, postBlinds_faceDown, Option.bind_eq_bind]
  cases hpost : e.postBlinds (antesPosted e s).1 with
  | none => rfl
  | some posted =>
    have hblinds : posted.2.map EngineEvent.faceDown = posted.2 :=
      faceDown_allIn (postBlinds_allIn hpost)
    simp only [Option.map_some, Option.bind_some, dealHoleCards_faceDown]
    cases Engine.dealHoleCards (List.finRange n) posted.1 deck with
    | none => rfl
    | some dealt =>
      simp only [Option.map_some, Option.bind_some, foldDeadHands_faceDown]
      cases Engine.foldDeadHands seatKinds dealt.1 with
      | none => rfl
      | some folded =>
        simp only [Option.map_some, Option.bind_some, List.map_append, hantes, hblinds]
        rfl

theorem setupEvents_faceDown (deck : Deck) (s : GameState n) :
    setupEvents e (faceDownDeck deck) s.faceDown =
      (setupEvents e deck s).map EngineEvent.faceDown := by
  refine (@setupEvents_relabel _ e (fun _ => back) deck s).trans
    (List.map_congr_left fun event hevent => ?_)
  rcases setupEvents_reports deck s event hevent with ⟨seat, total, rfl⟩ | ⟨seat, cards, rfl⟩ <;>
    rfl

/-! ## Betting rounds -/

/-- An action is carried out without looking at cards. -/
theorem performAction_faceDown (s : GameState n) (seat : Fin n) (action : Action) :
    Engine.performAction s.faceDown seat action =
      ((Engine.performAction s seat action).1.faceDown,
        (Engine.performAction s seat action).2) :=
  performAction_relabel (fun _ => back) s seat action

theorem observation_faceDown (d : Decision n) :
    d.faceDown.observation e = (d.observation e).map Observation.faceDown :=
  observation_relabel (fun _ => back) d

theorem acted_faceDown (d : Decision n) (raw : Action) :
    d.faceDown.acted raw = (d.acted raw).faceDown :=
  congrArg Prod.fst (performAction_faceDown d.state d.seat _)

theorem map_event_faceDown (events : List EngineEvent) :
    (events.map Output.event : List (Output n)).map Output.faceDown =
      (events.map EngineEvent.faceDown).map .event := by
  rw [List.map_map, List.map_map]
  rfl

theorem respondedAfter_faceDown (d : Decision n) (raw : Action) :
    d.faceDown.respondedAfter raw = d.respondedAfter raw :=
  respondedAfter_relabel (fun _ => back) d raw

/-- An answer leads on in the same way. -/
theorem answer_faceDown (d : Decision n) (raw : Action) :
    d.faceDown.answer raw = ((d.answer raw).1.map Output.faceDown, (d.answer raw).2.faceDown) := by
  refine Prod.ext ?_ ?_
  · have hbefore : (Engine.performAction d.faceDown.state d.faceDown.seat
        (Engine.normalizeAction d.faceDown.state d.faceDown.seat raw)).2.2 =
        (Engine.performAction d.state d.seat (Engine.normalizeAction d.state d.seat raw)).2.2 :=
      congrArg (fun r => r.2.2) (performAction_faceDown d.state d.seat _)
    simp only [answer_fst, hbefore, acted_faceDown, List.map_append, map_event_faceDown,
      faceDown_allIn (performAction_allIn d.state d.seat _)]
    rfl
  · have hin : (d.faceDown.acted raw).playersStillIn = (d.acted raw).playersStillIn := by
      rw [acted_faceDown]
      rfl
    have hfirst : (d.faceDown.acted raw).firstStillIn = (d.acted raw).firstStillIn := by
      rw [acted_faceDown]
      rfl
    rw [answer_snd, answer_snd, hin, hfirst, acted_faceDown, respondedAfter_faceDown]
    split
    · cases (d.acted raw).firstStillIn <;> rfl
    · rfl

theorem seek_faceDown (s : GameState n) (hasResponded : Fin n → Bool) (current : Fin n) :
    seek s.faceDown hasResponded n current = seek s hasResponded n current :=
  seek_relabel (fun _ => back) s hasResponded current

/-- A betting round asks the same seats the same questions. -/
theorem runBettingRound_faceDown (answers : List Action) (s : GameState n)
    (hasResponded : Fin n → Bool) (current : Fin n) :
    runBettingRound e answers s.faceDown hasResponded current =
      ((runBettingRound e answers s hasResponded current).1.map Output.faceDown,
        (runBettingRound e answers s hasResponded current).2.faceDown) := by
  refine runBettingRound_cases (fun answers s hasResponded current round =>
    runBettingRound e answers s.faceDown hasResponded current =
      (round.1.map Output.faceDown, round.2.faceDown)) ?_ ?_ ?_ ?_ answers s hasResponded current
  · intro answers s hasResponded current hseek
    rw [runBettingRound_of_allDone ((seek_faceDown s hasResponded current).trans hseek)]
    rfl
  · intro answers s hasResponded current seat hseek hobs
    have hobs' := @observation_faceDown n e ⟨s.setActionOn (some seat), hasResponded, seat⟩
    rw [hobs] at hobs'
    rw [runBettingRound_blind ((seek_faceDown s hasResponded current).trans hseek) hobs']
    rfl
  · intro s hasResponded current seat obs hseek hobs
    have hobs' := @observation_faceDown n e ⟨s.setActionOn (some seat), hasResponded, seat⟩
    rw [hobs] at hobs'
    rw [runBettingRound_nil ((seek_faceDown s hasResponded current).trans hseek) hobs']
    rfl
  · intro raw answers s hasResponded current seat obs hseek hobs ih
    have hobs' := @observation_faceDown n e ⟨s.setActionOn (some seat), hasResponded, seat⟩
    have hanswer := answer_faceDown ⟨s.setActionOn (some seat), hasResponded, seat⟩ raw
    have hgoOn : ∀ answer : Answer n,
        (Decision.answer ⟨s.setActionOn (some seat), hasResponded, seat⟩ raw).2 = answer →
          answer.faceDown.goOn e answers =
            ((answer.goOn e answers).1.map Output.faceDown,
              (answer.goOn e answers).2.faceDown) := by
      intro answer hnext
      cases answer with
      | winner winner t => rfl
      | next t hasResponded current => exact ih t hasResponded current hnext
      | panicked => rfl
    rw [hobs] at hobs'
    rw [runBettingRound_cons ((seek_faceDown s hasResponded current).trans hseek) hobs',
      show Decision.answer ⟨s.faceDown.setActionOn (some seat), hasResponded, seat⟩ raw = _
        from hanswer]
    simp only [hgoOn _ rfl, List.map_append, List.map_cons]
    rfl

/-! ## Streets -/

theorem dealRemainingStreets_faceDown (streets : List (Street × ℕ)) (s : GameState n)
    (deck : Deck) :
    Engine.dealRemainingStreets streets s.faceDown (faceDownDeck deck) =
      ((Engine.dealRemainingStreets streets s deck).1.map EngineEvent.faceDown,
        (Engine.dealRemainingStreets streets s deck).2.map fun dealt =>
          (dealt.1.faceDown, faceDownDeck dealt.2)) := by
  have hlength : ∀ s : GameState n, s.faceDown.board.length = s.board.length :=
    fun s => List.length_map _
  induction streets generalizing s deck with
  | nil => rfl
  | cons head streets ih =>
    obtain ⟨street, count⟩ := head
    simp only [Engine.dealRemainingStreets, hlength, dealBoardCards_faceDown]
    split_ifs
    · rfl
    · cases Engine.dealBoardCards s deck (min count (5 - s.board.length)) street with
      | none => rfl
      | some dealt =>
        simp only [Option.map_some, ih, List.map_cons]
    · exact ih s deck

theorem dealRemainingBoard_faceDown (s : GameState n) (deck : Deck) :
    Engine.dealRemainingBoard s.faceDown (faceDownDeck deck) =
      ((Engine.dealRemainingBoard s deck).1.map EngineEvent.faceDown,
        (Engine.dealRemainingBoard s deck).2.map fun dealt =>
          (dealt.1.faceDown, faceDownDeck dealt.2)) := by
  have hlength : ∀ s : GameState n, s.faceDown.board.length = s.board.length :=
    fun s => List.length_map _
  simp only [Engine.dealRemainingBoard, hlength, dealRemainingStreets_faceDown]
  split_ifs
  · rfl
  · refine Prod.ext rfl ?_
    cases (Engine.dealRemainingStreets Engine.postflop s deck).2 with
    | none => rfl
    | some dealt =>
      simp only [Option.map_some, Option.bind_eq_bind, Option.bind_some, hlength,
        dealMany_faceDown]
      cases dealt.2.dealMany (5 - dealt.1.board.length) with
      | none => rfl
      | some last =>
        simp only [Option.map_some, Option.bind_some, faceDown_extendBoard]

/-! ## Awards -/

/-- Equal up to the faces of the cards and the stacks, which the award pays into. -/
structure EndsAlike (s t : GameState n) : Prop where
  handId_eq : s.handId = t.handId
  board_eq : s.board.length = t.board.length
  satOut_eq : s.satOut = t.satOut
  players_eq : ∀ i, { (s.players i).faceDown with stack := 0 } =
    { (t.players i).faceDown with stack := 0 }

theorem EndsAlike.settle_faceDown {s t : GameState n} (h : EndsAlike s t)
    (chipDeltas chipDeltas' : Fin n → ℤ) (rest : List Action) :
    (settle s chipDeltas rest).faceDown = (settle t chipDeltas' rest).faceDown := by
  have hstatus : ∀ i, (s.players i).status = (t.players i).status := by
    intro i
    have := congrArg PlayerState.status (h.players_eq i)
    exact this
  have hcards : ∀ i, (s.players i).holeCards.map (fun _ => (back, back)) =
      (t.players i).holeCards.map fun _ => (back, back) := by
    intro i
    have := congrArg PlayerState.holeCards (h.players_eq i)
    exact this
  have hresult : (buildResult s.handId s chipDeltas).faceDown =
      (buildResult t.handId t chipDeltas').faceDown := by
    simp only [buildResult, HandResult.faceDown, h.handId_eq, hstatus, List.map_map,
      List.map_const', h.board_eq, HandResult.mk.injEq, true_and]
    refine List.map_congr_left fun i _ => ?_
    simp [seatOutcome, hcards, h.satOut_eq]
  simp only [settle, HandOutcome.faceDown, hresult, h.players_eq]

theorem endsAlike_faceDown (s : GameState n) (paid paid' : Fin n → ℕ) :
    EndsAlike
      { s.faceDown with players := fun i => { s.faceDown.players i with stack := paid i } }
      { s with players := fun i => { s.players i with stack := paid' i } } where
  handId_eq := rfl
  board_eq := List.length_map _
  satOut_eq := rfl
  players_eq i := by simp [PlayerState.faceDown, Function.comp_def]

/-- Ranking needs the hole cards of all seats, whichever they are. -/
theorem showdownRanks_faceDown_isSome (s : GameState n) (eligible : List (Fin n)) :
    (e.showdownRanks s.faceDown eligible).isSome = (e.showdownRanks s eligible).isSome := by
  induction eligible with
  | nil => rfl
  | cons seat eligible ih =>
    simp only [Engine.showdownRanks] at ih
    simp only [Engine.showdownRanks, List.mapM_cons, Option.bind_eq_bind, Option.isSome_bind]
    cases hcards : (s.players seat).holeCards with
    | none => simp [PlayerState.faceDown, hcards]
    | some hole => simpa [PlayerState.faceDown, hcards] using ih

theorem awardPot_faceDown_isSome (s : GameState n) (pot : ℕ × List (Fin n)) :
    (e.awardPot s.faceDown pot).isSome = (e.awardPot s pot).isSome := by
  obtain ⟨amount, eligible⟩ := pot
  simp only [Engine.awardPot]
  split
  · rfl
  · split
    · rfl
    · have h := @showdownRanks_faceDown_isSome n e s eligible
      cases hranks : e.showdownRanks s eligible with
      | none =>
        rw [hranks, Option.isSome_none, Option.isSome_eq_false_iff, Option.isNone_iff_eq_none] at h
        simp [h]
      | some ranks =>
        rw [hranks, Option.isSome_some, Option.isSome_iff_exists] at h
        obtain ⟨ranks', h⟩ := h
        simp [h]

theorem awardPots_faceDown_isSome (s : GameState n) (pots : List (ℕ × List (Fin n))) :
    (e.awardPots s.faceDown pots).isSome = (e.awardPots s pots).isSome := by
  induction pots with
  | nil => rfl
  | cons pot pots ih =>
    have hboth : ∀ t : GameState n, (e.awardPots t (pot :: pots)).isSome =
        ((e.awardPot t pot).isSome && (e.awardPots t pots).isSome) := by
      intro t
      simp only [Engine.awardPots, Option.bind_eq_bind]
      cases e.awardPot t pot <;> cases e.awardPots t pots <;> rfl
    rw [hboth, hboth, awardPot_faceDown_isSome, ih]

theorem buildShowdownPots_faceDown (s : GameState n) :
    buildShowdownPots s.faceDown.players = buildShowdownPots s.players :=
  buildShowdownPots_relabel (fun _ => back) s

/-- A showdown pays out of the same pots, though not to the same seats. -/
theorem resolveShowdown_faceDown (s : GameState n) :
    (e.resolveShowdown s = none ∧ e.resolveShowdown s.faceDown = none) ∨
      ∃ t chipDeltas t' chipDeltas', e.resolveShowdown s = some (t, chipDeltas) ∧
        e.resolveShowdown s.faceDown = some (t', chipDeltas') ∧ EndsAlike t' t := by
  have hlength : s.faceDown.board.length = s.board.length := List.length_map _
  have hpots := buildShowdownPots_faceDown s
  have hsome := @awardPots_faceDown_isSome n e s (buildShowdownPots s.players)
  by_cases hboard : s.board.length = 5
  · rw [Engine.resolveShowdown, Engine.resolveShowdown, if_pos hboard,
      if_pos (hlength.trans hboard), hpots]
    cases hawards : e.awardPots s (buildShowdownPots s.players) with
    | none =>
      rw [hawards, Option.isSome_none, Option.isSome_eq_false_iff, Option.isNone_iff_eq_none]
        at hsome
      exact Or.inl ⟨rfl, by rw [hsome]; rfl⟩
    | some chipDeltas =>
      rw [hawards, Option.isSome_some, Option.isSome_iff_exists] at hsome
      obtain ⟨chipDeltas', hawards'⟩ := hsome
      rw [hawards']
      exact Or.inr ⟨_, chipDeltas, _, chipDeltas', rfl, rfl, endsAlike_faceDown s _ _⟩
  · rw [Engine.resolveShowdown, Engine.resolveShowdown, if_neg hboard,
      if_neg (by rwa [hlength])]
    exact Or.inl ⟨rfl, rfl⟩

theorem awardUncontested_faceDown (s : GameState n) (winner : Fin n) :
    EndsAlike (Engine.awardUncontested s.faceDown winner).1
      (Engine.awardUncontested s winner).1 where
  handId_eq := rfl
  board_eq := List.length_map _
  satOut_eq := rfl
  players_eq i := by
    by_cases hi : i = winner <;>
      simp [Engine.awardUncontested, collectStreetBets, PlayerState.faceDown, GameState.faceDown,
        hi, Function.comp_def]

/-! ## Hands -/

@[simp] theorem PlayerState.faceDown_faceDown (p : PlayerState) :
    p.faceDown.faceDown = p.faceDown := by
  simp [PlayerState.faceDown, Function.comp_def]

@[simp] theorem GameState.faceDown_faceDown (s : GameState n) :
    s.faceDown.faceDown = s.faceDown := by
  simp [GameState.faceDown]

@[simp] theorem EngineEvent.faceDown_faceDown (event : EngineEvent) :
    event.faceDown.faceDown = event.faceDown := by
  cases event <;> simp [EngineEvent.faceDown, HandResult.faceDown, Function.comp_def]

theorem Output.faceDown_faceDown (output : Output n) :
    output.faceDown.faceDown = output.faceDown := by
  cases output <;> simp [Output.faceDown, Decision.faceDown, Observation.faceDown]

@[simp] theorem map_faceDown_faceDown (outputs : List (Output n)) :
    (outputs.map Output.faceDown).map Output.faceDown = outputs.map Output.faceDown := by
  rw [List.map_map]
  exact List.map_congr_left fun output _ => output.faceDown_faceDown

theorem faceDownHand_append {outputs outputs' : List (Output n)}
    {later later' : List (Output n) × HandOutcome n}
    (houtputs : outputs'.map Output.faceDown = outputs.map Output.faceDown)
    (hlater : faceDownHand later' = faceDownHand later) :
    faceDownHand (outputs' ++ later'.1, later'.2) =
      faceDownHand (outputs ++ later.1, later.2) := by
  obtain ⟨hlater, hout⟩ := Prod.mk.inj hlater
  refine Prod.ext ?_ hout
  simp only [faceDownHand, List.map_append, houtputs, hlater]

/-- What the deck leaves open at the award is all that differs. -/
theorem runShowdown_faceDown (deck : Deck) (s : GameState n) (answers : List Action) :
    faceDownHand (runShowdown e (faceDownDeck deck) s.faceDown answers) =
      faceDownHand (runShowdown e deck s answers) := by
  simp only [runShowdown, dealRemainingBoard_faceDown, faceDownHand]
  refine Prod.ext ?_ ?_
  · simp only [List.map_map]
    exact List.map_congr_left fun event _ => congrArg Output.event event.faceDown_faceDown
  · cases (Engine.dealRemainingBoard s deck).2 with
    | none => rfl
    | some dealt =>
      simp only [Option.map_some]
      rcases @resolveShowdown_faceDown n e dealt.1 with ⟨h, h'⟩ | ⟨t, _, t', _, h, h', hends⟩
      · simp only [h, h']
      · simp only [h, h']
        exact hends.settle_faceDown _ _ answers

/-- After equal rounds, hands that go on alike are alike. -/
theorem afterRound_faceDown {proceed proceed' : GameState n → List Action →
      List (Output n) × HandOutcome n}
    (hproceed : ∀ s answers,
      faceDownHand (proceed' s.faceDown answers) = faceDownHand (proceed s answers))
    (round : List (Output n) × RoundOutcome n) :
    faceDownHand (afterRound (round.1.map Output.faceDown, round.2.faceDown) proceed') =
      faceDownHand (afterRound round proceed) := by
  obtain ⟨outputs, outcome⟩ := round
  cases outcome with
  | winner winner s answers =>
    refine Prod.ext (map_faceDown_faceDown outputs) ?_
    exact (awardUncontested_faceDown s winner).settle_faceDown _ _ answers
  | ended s answers =>
    exact faceDownHand_append (map_faceDown_faceDown outputs)
      (hproceed (collectStreetBets s) answers)
  | waiting => exact Prod.ext (map_faceDown_faceDown outputs) rfl
  | panicked => exact Prod.ext (map_faceDown_faceDown outputs) rfl
  | spinning => exact Prod.ext (map_faceDown_faceDown outputs) rfl

theorem runPostflop_faceDown (streets : List (Street × ℕ)) (deck : Deck) (s : GameState n)
    (answers : List Action) :
    faceDownHand (runPostflop e streets (faceDownDeck deck) s.faceDown answers) =
      faceDownHand (runPostflop e streets deck s answers) := by
  induction streets generalizing deck s answers with
  | nil => exact runShowdown_faceDown deck s answers
  | cons head streets ih =>
    obtain ⟨street, count⟩ := head
    have hin : s.faceDown.playersStillIn = s.playersStillIn := rfl
    simp only [runPostflop, hin]
    split
    · exact runShowdown_faceDown deck s answers
    · rw [faceDown_beginStreet, dealBoardCards_faceDown]
      cases Engine.dealBoardCards (e.beginStreet s street) deck count street with
      | none => rfl
      | some dealt =>
        obtain ⟨t, deck', event⟩ := dealt
        simp only [Option.map_some]
        have hfirst : Engine.firstToAct t.faceDown = Engine.firstToAct t := rfl
        rw [hfirst]
        -- the street is reported, and the hand goes on
        refine @faceDownHand_append n [.event event, .notify event]
          [.event event.faceDown, .notify event.faceDown] _ _ ?_ ?_
        · simp only [List.map_cons, List.map_nil, Output.faceDown, EngineEvent.faceDown_faceDown]
        · cases Engine.firstToAct t with
          | none => exact ih deck' (collectStreetBets t) answers
          | some first =>
            simp only [runBettingRound_faceDown]
            exact afterRound_faceDown (fun s answers => ih deck' s answers) _

/-- A hand that was set up alike goes on alike. -/
theorem runStreets_faceDown (deck : Deck) (s : GameState n) (firstPreflop : Fin n)
    (answers : List Action) :
    faceDownHand (runStreets e (faceDownDeck deck) s.faceDown firstPreflop answers) =
      faceDownHand (runStreets e deck s firstPreflop answers) := by
  rw [runStreets, runStreets, runBettingRound_faceDown]
  exact afterRound_faceDown (runPostflop_faceDown Engine.postflop deck) _

theorem awardUncontestedAndFinish_faceDown (s : GameState n) (answers : List Action) :
    (awardUncontestedAndFinish s.faceDown answers).faceDown =
      (awardUncontestedAndFinish s answers).faceDown := by
  have hfirst : s.faceDown.firstStillIn = s.firstStillIn := rfl
  simp only [awardUncontestedAndFinish, hfirst]
  cases s.firstStillIn with
  | none => rfl
  | some winner => exact (awardUncontested_faceDown s winner).settle_faceDown _ _ answers

theorem reportEnd_faceDown {hand hand' : List (Output n) × HandOutcome n}
    (h : faceDownHand hand' = faceDownHand hand) :
    faceDownHand (reportEnd hand') = faceDownHand (reportEnd hand) := by
  obtain ⟨outputs, outcome⟩ := hand
  obtain ⟨outputs', outcome'⟩ := hand'
  obtain ⟨houtputs, hout⟩ := Prod.mk.inj h
  cases outcome with
  | finished result players chipDeltas rest =>
    cases outcome' with
    | finished result' players' chipDeltas' rest' =>
      obtain ⟨hresult, -⟩ := HandOutcome.finished.inj hout
      have hid := congrArg HandResult.handId hresult
      refine @faceDownHand_append n outputs outputs' ([_], _) ([_], _) houtputs (Prod.ext ?_ hout)
      simp only [faceDownHand, List.map_cons, List.map_nil, Output.faceDown, EngineEvent.faceDown,
        hresult, show result'.handId = result.handId from hid]
    | _ => cases hout
  | _ => cases outcome' with
    | finished => cases hout
    | _ => exact Prod.ext houtputs hout

/-- Whatever the deck, a hand is the one that is played with all cards face down. -/
theorem runHand_faceDown (handId deckSeed : ℕ) (order : Fin 52 → Card)
    (startingStacks : List ℕ) (dealer : ℕ) (seatKinds : Option (List SeatKind))
    (answers : List Action) :
    faceDownHand (runHand e handId deckSeed order startingStacks dealer seatKinds answers) =
      faceDownHand
        (runHand e handId 0 (fun _ => back) startingStacks dealer seatKinds answers) := by
  have hdeck : Deck.new (fun _ => back) = faceDownDeck (.new order) := rfl
  have hinit : e.initState handId startingStacks dealer =
      (e.initState handId startingStacks dealer).faceDown := rfl
  have hsetup := @setupHand_faceDown _ e (.new order) (e.initState handId startingStacks dealer)
    seatKinds
  have hevents := @setupEvents_faceDown _ e (.new order) (e.initState handId startingStacks dealer)
  rw [← hdeck, ← hinit] at hsetup hevents
  simp only [runHand, hsetup]
  cases setupHand e (.new order) (e.initState handId startingStacks dealer) seatKinds with
  | none =>
    refine (@faceDownHand_append _ [_] [_] (_, .panicked) (_, .panicked) rfl ?_).symm
    simp only [faceDownHand, hevents, List.map_map]
    exact Prod.ext (List.map_congr_left fun event _ =>
      congrArg Output.event event.faceDown_faceDown) rfl
  | some setup =>
    obtain ⟨s, deck, canonicalBb, events⟩ := setup
    have hnext : nextActiveAfter canonicalBb s.faceDown.players =
        nextActiveAfter canonicalBb s.players := rfl
    refine (reportEnd_faceDown (faceDownHand_append ?_ ?_)).symm
    · simp only [List.map_cons, List.map_map]
      exact congrArg _ (List.map_congr_left fun event _ =>
        congrArg Output.event event.faceDown_faceDown)
    · simp only [hnext]
      cases nextActiveAfter canonicalBb s.players with
      | none => exact Prod.ext rfl (awardUncontestedAndFinish_faceDown s answers)
      | some first => exact runStreets_faceDown deck s first answers

end VibePoker.Game
