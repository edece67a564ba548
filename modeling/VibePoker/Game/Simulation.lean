import VibePoker.Game.Step

/-!
# The stepper simulates the engine

`runHand` and `GameTree` are two control structures over the same operations.
They ask the same seats the same questions, report the same events and come out
alike, whatever the rules, the stacks, the deck and the answers.

## Main results

* `seek_eq` — the skipping loop of a betting round is a clockwise search
* `roundAgrees` — one betting round and everything after it
* `core_runHand` — a whole hand
-/

namespace VibePoker.Game

open VibePoker.Core VibePoker.Math

variable {n : ℕ} {e : Engine}

/-! ## The skipping loop -/

/-- While some seat is unsettled, skipping finds the first unsettled seat of the
lap, and without one it runs out of fuel. -/
theorem seek_of_unsettled {s : GameState n} {hasResponded : Fin n → Bool} {i : Fin n}
    (hi : s.unsettled hasResponded i) (fuel : ℕ) (current : Fin n) :
    seek s hasResponded fuel current =
      match (ringFrom fuel current).find? fun j => s.unsettled hasResponded j with
      | some seat => .prompt seat
      | none => .spinning := by
  have hnot : ¬ ∀ j, s.unsettled hasResponded j = false := fun h => by simp [h i] at hi
  induction fuel generalizing current with
  | zero => rfl
  | succ fuel ih =>
    rw [seek, if_neg hnot, ringFrom, List.find?_cons]
    cases hcurrent : s.unsettled hasResponded current with
    | false => simp [ih]
    | true => simp

/-- One lap of skipping is a clockwise search for an unsettled seat: it never
spins. -/
theorem seek_eq (s : GameState n) (hasResponded : Fin n → Bool) (current : Fin n) :
    seek s hasResponded n current =
      match (ringFrom n current).find? fun j => s.unsettled hasResponded j with
      | some seat => .prompt seat
      | none => .allDone := by
  by_cases hdone : ∀ j, s.unsettled hasResponded j = false
  · have hfind : ((ringFrom n current).find? fun j => s.unsettled hasResponded j) = none :=
      List.find?_eq_none.mpr fun j _ => by simp [hdone j]
    rw [hfind]
    cases n with
    | zero => exact current.elim0
    | succ m => simp [seek, hdone]
  · obtain ⟨i, hi⟩ : ∃ i, s.unsettled hasResponded i := by
      simpa only [not_forall, Bool.not_eq_false] using hdone
    rw [seek_of_unsettled hi]
    cases hfind : (ringFrom n current).find? fun j => s.unsettled hasResponded j with
    | some seat => rfl
    | none =>
      have := List.find?_eq_none.mp hfind i (mem_ringFrom current i)
      exact absurd hi this

theorem seek_ne_spinning (s : GameState n) (hasResponded : Fin n → Bool) (current : Fin n) :
    seek s hasResponded n current ≠ .spinning := by
  rw [seek_eq]
  split <;> simp

theorem seek_eq_prompt_of_unsettled {s : GameState n} {hasResponded : Fin n → Bool}
    {current : Fin n} (h : s.unsettled hasResponded current) :
    seek s hasResponded n current = .prompt current := by
  rw [seek_eq]
  cases n with
  | zero => exact current.elim0
  | succ m => simp [ringFrom, h]

/-! ## Reports without the notifications -/

/-- The output is not a notification of the agents. -/
def Output.isCore : Output n → Bool
  | .notify _ => false
  | _ => true

@[simp] theorem isCore_event (event : EngineEvent) : (Output.event event : Output n).isCore := rfl

@[simp] theorem isCore_notify (event : EngineEvent) :
    (Output.notify event : Output n).isCore = false := rfl

@[simp] theorem isCore_prompt (d : Decision n) (obs : Observation) :
    (Output.prompt d obs).isCore := rfl

/-- A run without the notifications of the agents. -/
def core (run : List (Output n) × HandOutcome n) : List (Output n) × HandOutcome n :=
  (run.1.filter Output.isCore, run.2)

@[simp] theorem filter_isCore_events (events : List EngineEvent) :
    (events.map Output.event : List (Output n)).filter Output.isCore = events.map .event := by
  simp [List.filter_eq_self]

/-! ## States that settle alike -/

/-- Equal up to the fields that only steer the betting. -/
structure SettlesAlike (s t : GameState n) : Prop where
  handId : s.handId = t.handId
  players : s.players = t.players
  board : s.board = t.board
  dealer : s.dealer = t.dealer
  satOut : s.satOut = t.satOut

namespace SettlesAlike

variable {s t : GameState n}

theorem buildResult_eq (h : SettlesAlike s t) (handId : ℕ) (chipDeltas : Fin n → ℤ) :
    buildResult handId s chipDeltas = buildResult handId t chipDeltas := by
  have houtcome : seatOutcome s chipDeltas = seatOutcome t chipDeltas := by
    funext i
    simp [seatOutcome, h.players, h.satOut]
  simp [buildResult, houtcome, h.players, h.board]

theorem settle_eq (h : SettlesAlike s t) (chipDeltas : Fin n → ℤ) (rest : List Action) :
    settle s chipDeltas rest = settle t chipDeltas rest := by
  rw [settle, settle, h.buildResult_eq, h.players, h.handId]

theorem awardPots_eq (h : SettlesAlike s t) (pots : List (ℕ × List (Fin n))) :
    e.awardPots s pots = e.awardPots t pots := by
  induction pots with
  | nil => rfl
  | cons pot pots ih =>
    have hpot : e.awardPot s pot = e.awardPot t pot := by
      simp [Engine.awardPot, Engine.showdownRanks, h.players, h.board, h.dealer]
    simp only [Engine.awardPots, hpot, ih]

theorem resolveShowdown_eq (h : SettlesAlike s t) :
    (e.resolveShowdown s = none ∧ e.resolveShowdown t = none) ∨
      ∃ s' t' chipDeltas, e.resolveShowdown s = some (s', chipDeltas) ∧
        e.resolveShowdown t = some (t', chipDeltas) ∧ SettlesAlike s' t' := by
  simp only [Engine.resolveShowdown, h.board, h.players, h.awardPots_eq]
  split
  case isFalse => exact Or.inl ⟨rfl, rfl⟩
  case isTrue hboard =>
    cases e.awardPots t (buildShowdownPots t.players) with
    | none => exact Or.inl ⟨rfl, rfl⟩
    | some chipDeltas =>
      refine Or.inr ⟨_, _, chipDeltas, rfl, rfl, ?_⟩
      exact ⟨h.handId, rfl, rfl, h.dealer, h.satOut⟩

theorem dealBoardCards_eq (h : SettlesAlike s t) (deck : Deck) (count : ℕ) (street : Street) :
    (Engine.dealBoardCards s deck count street = none ∧
        Engine.dealBoardCards t deck count street = none) ∨
      ∃ s' t' deck' event, Engine.dealBoardCards s deck count street = some (s', deck', event) ∧
        Engine.dealBoardCards t deck count street = some (t', deck', event) ∧
        SettlesAlike s' t' := by
  unfold Engine.dealBoardCards
  cases deck.dealMany count with
  | none => exact Or.inl ⟨rfl, rfl⟩
  | some dealt =>
    refine Or.inr ⟨_, _, _, _, rfl, rfl, ⟨h.handId, h.players, ?_, h.dealer, h.satOut⟩⟩
    simp [h.board]

end SettlesAlike

/-! ## Dealing the board street by street -/

/-- Resolve the showdown of a complete board. -/
def resolveAndSettle (e : Engine) (s : GameState n) (answers : List Action) : HandOutcome n :=
  match e.resolveShowdown s with
  | none => .panicked
  | some (s, chipDeltas) => settle s chipDeltas answers

/-- Deal the listed streets one after the other without betting, then resolve
the showdown. -/
def runOut (e : Engine) : List (Street × ℕ) → Deck → GameState n → List Action →
    List (Output n) × HandOutcome n
  | [], _, s, answers => ([], resolveAndSettle e s answers)
  | (street, count) :: streets, deck, s, answers =>
    match Engine.dealBoardCards s deck count street with
    | none => ([], .panicked)
    | some (s, deck, event) =>
      let later := runOut e streets deck s answers
      (.event event :: later.1, later.2)

/-- The street loop passes over a street whose cards are on the board. -/
theorem dealRemainingStreets_skip {s : GameState n} {street : Street} {count : ℕ}
    {streets : List (Street × ℕ)} (deck : Deck) (hshort : s.board.length < 5)
    (hdealt : count + (5 - (count + (streets.map Prod.snd).sum)) ≤ s.board.length) :
    Engine.dealRemainingStreets ((street, count) :: streets) s deck =
      Engine.dealRemainingStreets streets s deck := by
  rw [Engine.dealRemainingStreets, if_neg (by omega), if_neg (by omega)]

/-- The street loop deals every listed street when these are the missing ones. -/
theorem dealRemainingStreets_runOut (streets : List (Street × ℕ)) {s : GameState n}
    (deck : Deck) (hfits : s.board.length + (streets.map Prod.snd).sum = 5)
    (hcount : ∀ street ∈ streets, 0 < street.2) (answers : List Action) :
    let board := Engine.dealRemainingStreets streets s deck
    (∀ s' deck', board.2 = some (s', deck') → s'.board.length = 5) ∧
    (((board.1.map .event : List (Output n)),
      match board.2 with
      | none => .panicked
      | some (s, _) => resolveAndSettle e s answers) = runOut e streets deck s answers) := by
  induction streets generalizing s deck with
  | nil =>
    refine ⟨fun s' deck' h => ?_, rfl⟩
    obtain ⟨rfl, -⟩ : s = s' ∧ deck = deck' := by simpa [Engine.dealRemainingStreets] using h
    simpa using hfits
  | cons head streets ih =>
    obtain ⟨street, count⟩ := head
    have hpos := hcount _ List.mem_cons_self
    simp only [List.map_cons, List.sum_cons] at hfits hpos
    rw [Engine.dealRemainingStreets, if_neg (by omega), if_pos (by omega),
      Nat.min_eq_left (by omega), runOut]
    cases hdeal : Engine.dealBoardCards s deck count street with
    | none => simp
    | some dealt =>
      obtain ⟨s', deck', event⟩ := dealt
      obtain ⟨cards, hlength, rfl, -⟩ := dealBoardCards_board hdeal
      have hrest := ih (s := s.extendBoard cards) deck'
        (by simp only [GameState.extendBoard_board, List.length_append]; omega)
        fun street h => hcount street (List.mem_cons_of_mem _ h)
      refine ⟨hrest.1, ?_⟩
      dsimp only
      rw [← hrest.2]
      rfl

/-- Filling the board deals the streets that are missing. -/
theorem runShowdown_eq_runOut {s : GameState n} {street : Street}
    (hboard : s.board.length = boardSize street) (deck : Deck) (answers : List Action) :
    runShowdown e deck s answers = runOut e (streetsAfter street) deck s answers := by
  -- the engine starts from the flop again, and skips the streets that are on the board
  by_cases hfull : s.board.length = 5
  · have hstreets : streetsAfter street = [] := by
      cases street <;> simp_all [boardSize, streetsAfter]
    rw [hstreets]
    simp only [runShowdown, Engine.dealRemainingBoard, hfull, Nat.sub_self, if_true]
    rfl
  · have hstreets : Engine.dealRemainingStreets Engine.postflop s deck =
        Engine.dealRemainingStreets (streetsAfter street) s deck := by
      cases street <;> simp only [boardSize] at hboard <;>
        simp only [Engine.postflop, streetsAfter]
      case flop => exact dealRemainingStreets_skip deck (by omega) (by simp [hboard])
      case turn =>
        rw [dealRemainingStreets_skip deck (by omega) (by simp [hboard])]
        exact dealRemainingStreets_skip deck (by omega) (by simp [hboard])
      all_goals omega
    obtain ⟨hlength, hrun⟩ := dealRemainingStreets_runOut (e := e) (streetsAfter street) (s := s)
      deck (by cases street <;> simp_all [boardSize, streetsAfter, Engine.postflop])
      (by cases street <;> simp [streetsAfter, Engine.postflop]) answers
    rw [← hrun]
    simp only [runShowdown, Engine.dealRemainingBoard]
    have hle := boardSize_le street
    rw [if_neg (by omega), hstreets]
    cases hdealt : (Engine.dealRemainingStreets (streetsAfter street) s deck).2 with
    | none => simp
    | some dealt =>
      obtain ⟨s', deck'⟩ := dealt
      have h5 := hlength s' deck' hdealt
      have hempty : s'.extendBoard [] = s' := by simp [GameState.extendBoard]
      simp [h5, Deck.dealMany, hempty]
      rfl

theorem resolveAndSettle_eq {s t : GameState n} (h : SettlesAlike s t) (answers : List Action) :
    resolveAndSettle e s answers = resolveAndSettle e t answers := by
  unfold resolveAndSettle
  obtain ⟨hs, ht⟩ | ⟨s', t', chipDeltas, hs, ht, hst⟩ := h.resolveShowdown_eq (e := e)
  · rw [hs, ht]
  · rw [hs, ht]
    exact hst.settle_eq chipDeltas answers

/-! ## Streets without betting -/

theorem playFrom_cons (event : EngineEvent) (start : List EngineEvent × Option (GameTree n))
    (answers : List Action) :
    GameTree.playFrom e (event :: start.1, start.2) answers =
      (.event event :: (GameTree.playFrom e start answers).1,
        (GameTree.playFrom e start answers).2) := by
  obtain ⟨events, _ | t⟩ := start <;> rfl

/-- On a complete board the stepper resolves the showdown. -/
theorem playFrom_advanceStreets_of_complete (answers : List Action) {s t : GameState n}
    (deck : Deck) {fuel : ℕ} (hfuel : 0 < fuel) (halike : SettlesAlike s t)
    (hstreet : streetsAfter t.street = []) (hboard : t.board.length = boardSize t.street) :
    GameTree.playFrom e (GameTree.advanceStreets e fuel t deck) answers =
      ([], resolveAndSettle e s answers) := by
  obtain ⟨fuel, rfl⟩ : ∃ f, fuel = f + 1 := ⟨fuel - 1, by omega⟩
  have hnext : GameTree.nextStreet t.street = none := by
    rw [nextStreet_eq_head?, hstreet]
    rfl
  have hfive : t.board.length = 5 := by
    cases hst : t.street <;> simp_all [boardSize, streetsAfter, Engine.postflop]
  have halike' : SettlesAlike s { t with street := .showdown } :=
    ⟨halike.handId, halike.players, halike.board, halike.dealer, halike.satOut⟩
  rw [GameTree.advanceStreets, hnext, resolveAndSettle_eq halike']
  simp only [Engine.dealRemainingBoard, hfive, Nat.sub_self, if_true, GameTree.playFrom,
    resolveAndSettle, Option.bind_eq_bind, Option.bind_some, List.map_nil]
  cases e.resolveShowdown { t with street := .showdown } with
  | none => rfl
  | some resolved => simp [GameTree.play]

/-- With at most one contender the stepper bets no more: it runs the board out. -/
theorem playFrom_advanceStreets_of_le_one (answers : List Action) (streets : List (Street × ℕ))
    {s t : GameState n} (deck : Deck) {fuel : ℕ} (hfuel : streets.length < fuel)
    (halike : SettlesAlike s t) (hstreet : streetsAfter t.street = streets)
    (hboard : t.board.length = boardSize t.street) (hone : t.playersStillIn ≤ 1)
    (hbets : ∀ i, (t.players i).betThisStreet = 0) :
    GameTree.playFrom e (GameTree.advanceStreets e fuel t deck) answers =
      runOut e streets deck s answers := by
  induction streets generalizing s t deck fuel with
  | nil => exact playFrom_advanceStreets_of_complete answers deck hfuel halike hstreet hboard
  | cons head streets ih =>
    obtain ⟨street, count⟩ := head
    obtain ⟨fuel, rfl⟩ : ∃ f, fuel = f + 1 := ⟨fuel - 1, by simp at hfuel; omega⟩
    obtain ⟨hafter, hsize⟩ := streetsAfter_of_cons hstreet
    have hnext : GameTree.nextStreet t.street = some (street, count) := by
      rw [nextStreet_eq_head?, hstreet]
      rfl
    have hbegin : SettlesAlike s (e.beginStreet t street) := by
      refine ⟨halike.handId, ?_, halike.board, halike.dealer, halike.satOut⟩
      rw [halike.players]
      funext i
      simp [Engine.beginStreet, ← hbets i]
    rw [GameTree.advanceStreets, hnext, runOut]
    obtain ⟨hs, ht⟩ | ⟨s', t', deck', event, hs, ht, halike'⟩ :=
      hbegin.dealBoardCards_eq deck count street
    · simp [hs, ht, GameTree.playFrom]
    · obtain ⟨cards, hlength, rfl, -⟩ := dealBoardCards_board ht
      -- with one contender left nobody can act on the street
      have hfirst : Engine.firstToAct ((e.beginStreet t street).extendBoard cards) = none := by
        have hle : activeCount (e.beginStreet t street).players ≤ t.playersStillIn :=
          activeCount_le_playersStillIn t
        rw [Engine.firstToAct, if_neg]
        simp only [GameState.extendBoard_players]
        omega
      have hcollect : SettlesAlike s'
          (collectStreetBets ((e.beginStreet t street).extendBoard cards)) :=
        ⟨halike'.handId, halike'.players, halike'.board, halike'.dealer, halike'.satOut⟩
      have hrest := ih deck' (by simpa using hfuel) hcollect hafter
        (by simp [collectStreetBets, Engine.beginStreet, hboard, hsize, hlength])
        hone fun i => rfl
      simp only [hs, ht, hfirst, playFrom_cons, hrest]

/-! ## One betting round and everything after it -/

/-- Outputs in front of a round stay in front. -/
theorem afterRound_append (outputs : List (Output n)) (round : List (Output n) × RoundOutcome n)
    (proceed : GameState n → List Action → List (Output n) × HandOutcome n) :
    afterRound (outputs ++ round.1, round.2) proceed =
      (outputs ++ (afterRound round proceed).1, (afterRound round proceed).2) := by
  obtain ⟨made, _ | _ | _ | _ | _⟩ := round <;> simp [afterRound]

theorem core_append (outputs : List (Output n)) (run : List (Output n) × HandOutcome n) :
    core (outputs ++ run.1, run.2) =
      (outputs.filter Output.isCore ++ (core run).1, (core run).2) := by
  simp [core]

/-- The outputs of `runOut` are events. -/
theorem core_runOut (streets : List (Street × ℕ)) (deck : Deck) (s : GameState n)
    (answers : List Action) :
    core (runOut e streets deck s answers) = runOut e streets deck s answers := by
  induction streets generalizing s deck with
  | nil => rfl
  | cons head streets ih =>
    obtain ⟨street, count⟩ := head
    rw [runOut]
    cases Engine.dealBoardCards s deck count street with
    | none => rfl
    | some dealt =>
      have h := congrArg Prod.fst (ih dealt.2.1 dealt.1)
      simp only [core] at h
      simp only [core, List.filter_cons, isCore_event, if_true, h]

/-- The tree after a prompt of the betting round. -/
def promptTree (s : GameState n) (deck : Deck) (hasResponded : Fin n → Bool) (seat : Fin n) :
    GameTree n :=
  ⟨s.setActionOn (some seat), deck, .decision seat hasResponded⟩

/-- The statement proved by induction on the answers: from a prompt on, the
betting round with all that follows it agrees with the stepper. -/
def RoundAgrees (e : Engine) (answers : List Action) : Prop :=
  ∀ (n : ℕ) (s : GameState n) (deck : Deck) (hasResponded : Fin n → Bool) (current seat : Fin n),
    BoardFits s → seek s hasResponded n current = .prompt seat →
      core (afterRound (runBettingRound e answers s hasResponded current)
          (runPostflop e (streetsAfter s.street) deck)) =
        (promptTree s deck hasResponded seat).play e answers

/-- From the end of a betting round on, the engine agrees with the stepper if
it does so on the rounds to come. -/
theorem core_runPostflop {answers : List Action} (hround : RoundAgrees e answers)
    (streets : List (Street × ℕ)) {s : GameState n} (deck : Deck) {fuel : ℕ}
    (hfuel : streets.length < fuel) (hstreet : streetsAfter s.street = streets)
    (hboard : BoardFits s) (hbets : ∀ i, (s.players i).betThisStreet = 0) :
    core (runPostflop e streets deck s answers) =
      GameTree.playFrom e (GameTree.advanceStreets e fuel s deck) answers := by
  have halike : SettlesAlike s s := ⟨rfl, rfl, rfl, rfl, rfl⟩
  induction streets generalizing s deck fuel with
  | nil =>
    rw [runPostflop, runShowdown_eq_runOut hboard, hstreet, core_runOut, runOut,
      playFrom_advanceStreets_of_complete answers deck hfuel halike hstreet hboard]
  | cons head streets ih =>
    obtain ⟨street, count⟩ := head
    by_cases hone : s.playersStillIn ≤ 1
    · rw [runPostflop, if_pos hone, runShowdown_eq_runOut hboard, hstreet, core_runOut,
        playFrom_advanceStreets_of_le_one answers _ deck hfuel halike hstreet hboard hone hbets]
    obtain ⟨fuel, rfl⟩ : ∃ f, fuel = f + 1 := ⟨fuel - 1, by simp at hfuel; omega⟩
    obtain ⟨hafter, hsize⟩ := streetsAfter_of_cons hstreet
    have hnext : GameTree.nextStreet s.street = some (street, count) := by
      rw [nextStreet_eq_head?, hstreet]
      rfl
    rw [runPostflop, if_neg hone, GameTree.advanceStreets, hnext]
    cases hdeal : Engine.dealBoardCards (e.beginStreet s street) deck count street with
    | none => simp [GameTree.playFrom, core, hdeal]
    | some dealt =>
      obtain ⟨s', deck', event⟩ := dealt
      obtain ⟨cards, hlength, hs', -⟩ := dealBoardCards_board hdeal
      have hstreet' : s'.street = street := by rw [hs']; rfl
      have hfits : BoardFits s' := by
        simp only [BoardFits] at hboard
        simp [BoardFits, hs', Engine.beginStreet, hboard, hsize, hlength]
      simp only [hdeal]
      cases hfirst : Engine.firstToAct s' with
      | none =>
        have hrest := ih (s := collectStreetBets s') deck' (by simpa using hfuel)
          (by rw [← hafter, ← hstreet']; rfl) hfits (fun i => rfl) ⟨rfl, rfl, rfl, rfl, rfl⟩
        rw [playFrom_cons, ← hrest]
        simp [core, List.filter_cons]
      | some first =>
        have hactive := firstToAct_active hfirst
        have hseek : seek s' (fun _ => false) n first = .prompt first :=
          seek_eq_prompt_of_unsettled (by simp [GameState.unsettled, hactive])
        -- the agreement of the round is used at the state after the dealing
        have hplay := hround n s' deck' (fun _ => false) first first hfits hseek
        rw [hstreet', hafter] at hplay
        simp only [GameTree.playFrom, promptTree] at hplay ⊢
        rw [← hplay]
        simp [core, List.filter_cons]

theorem runBettingRound_of_allDone {s : GameState n} {hasResponded : Fin n → Bool}
    {current : Fin n} {answers : List Action}
    (h : seek s hasResponded n current = .allDone) :
    runBettingRound e answers s hasResponded current =
      ([], .ended (s.setActionOn none) answers) := by
  cases answers <;> rw [runBettingRound, h]

theorem runBettingRound_blind {s : GameState n} {hasResponded : Fin n → Bool} {current seat : Fin n}
    (hseek : seek s hasResponded n current = .prompt seat)
    (hobs : Decision.observation e ⟨s.setActionOn (some seat), hasResponded, seat⟩ = none)
    (answers : List Action) :
    runBettingRound e answers s hasResponded current = ([], .panicked) := by
  cases answers <;> simp only [runBettingRound.eq_def, hseek, hobs]

theorem runBettingRound_nil {s : GameState n} {hasResponded : Fin n → Bool} {current seat : Fin n}
    {obs : Observation} (hseek : seek s hasResponded n current = .prompt seat)
    (hobs : Decision.observation e ⟨s.setActionOn (some seat), hasResponded, seat⟩ = some obs) :
    runBettingRound e [] s hasResponded current =
      ([.prompt ⟨s.setActionOn (some seat), hasResponded, seat⟩ obs], .waiting) := by
  simp only [runBettingRound.eq_def, hseek, hobs]

/-- How a betting round goes on with the remaining answers. -/
def Answer.goOn (e : Engine) (answers : List Action) : Answer n → List (Output n) × RoundOutcome n
  | .winner seat s => ([], .winner seat s answers)
  | .next s hasResponded current => runBettingRound e answers s hasResponded current
  | .panicked => ([], .panicked)

theorem runBettingRound_cons {s : GameState n} {hasResponded : Fin n → Bool}
    {current seat : Fin n} {obs : Observation}
    (hseek : seek s hasResponded n current = .prompt seat)
    (hobs : Decision.observation e ⟨s.setActionOn (some seat), hasResponded, seat⟩ = some obs)
    (raw : Action) (answers : List Action) :
    runBettingRound e (raw :: answers) s hasResponded current =
      (.prompt ⟨s.setActionOn (some seat), hasResponded, seat⟩ obs ::
          (Decision.answer ⟨s.setActionOn (some seat), hasResponded, seat⟩ raw).1 ++
        ((Decision.answer ⟨s.setActionOn (some seat), hasResponded, seat⟩ raw).2.goOn e answers).1,
        ((Decision.answer ⟨s.setActionOn (some seat), hasResponded, seat⟩ raw).2.goOn e
          answers).2) := by
  rw [runBettingRound]
  simp only [hseek, hobs]
  rcases Decision.answer ⟨s.setActionOn (some seat), hasResponded, seat⟩ raw with
    ⟨outputs, winner | next | panicked⟩ <;> simp [Answer.goOn]

/-- What holds of a betting round in each of its cases, where an answer that goes on leads
to a round of which it holds, holds of every betting round. -/
theorem runBettingRound_cases
    (P : List Action → GameState n → (Fin n → Bool) → Fin n →
      List (Output n) × RoundOutcome n → Prop)
    (allDone : ∀ answers s hasResponded current, seek s hasResponded n current = .allDone →
      P answers s hasResponded current ([], .ended (s.setActionOn none) answers))
    (blind : ∀ answers s hasResponded current seat,
      seek s hasResponded n current = .prompt seat →
      Decision.observation e ⟨s.setActionOn (some seat), hasResponded, seat⟩ = none →
      P answers s hasResponded current ([], .panicked))
    (waiting : ∀ s hasResponded current seat obs, seek s hasResponded n current = .prompt seat →
      Decision.observation e ⟨s.setActionOn (some seat), hasResponded, seat⟩ = some obs →
      P [] s hasResponded current
        ([.prompt ⟨s.setActionOn (some seat), hasResponded, seat⟩ obs], .waiting))
    (answered : ∀ raw answers s hasResponded current seat obs,
      seek s hasResponded n current = .prompt seat →
      Decision.observation e ⟨s.setActionOn (some seat), hasResponded, seat⟩ = some obs →
      (∀ t hasResponded' current',
        (Decision.answer ⟨s.setActionOn (some seat), hasResponded, seat⟩ raw).2 =
            .next t hasResponded' current' →
          P answers t hasResponded' current' (runBettingRound e answers t hasResponded' current')) →
      P (raw :: answers) s hasResponded current
        (.prompt ⟨s.setActionOn (some seat), hasResponded, seat⟩ obs ::
            (Decision.answer ⟨s.setActionOn (some seat), hasResponded, seat⟩ raw).1 ++
          ((Decision.answer ⟨s.setActionOn (some seat), hasResponded, seat⟩ raw).2.goOn e
            answers).1,
          ((Decision.answer ⟨s.setActionOn (some seat), hasResponded, seat⟩ raw).2.goOn e
            answers).2))
    (answers : List Action) (s : GameState n) (hasResponded : Fin n → Bool) (current : Fin n) :
    P answers s hasResponded current (runBettingRound e answers s hasResponded current) := by
  induction answers generalizing s hasResponded current with
  | nil =>
    cases hseek : seek s hasResponded n current with
    | spinning => exact absurd hseek (seek_ne_spinning s hasResponded current)
    | allDone =>
      rw [runBettingRound_of_allDone hseek]
      exact allDone [] s hasResponded current hseek
    | prompt seat =>
      cases hobs : Decision.observation e ⟨s.setActionOn (some seat), hasResponded, seat⟩ with
      | none =>
        rw [runBettingRound_blind hseek hobs]
        exact blind [] s hasResponded current seat hseek hobs
      | some obs =>
        rw [runBettingRound_nil hseek hobs]
        exact waiting s hasResponded current seat obs hseek hobs
  | cons raw answers ih =>
    cases hseek : seek s hasResponded n current with
    | spinning => exact absurd hseek (seek_ne_spinning s hasResponded current)
    | allDone =>
      rw [runBettingRound_of_allDone hseek]
      exact allDone _ s hasResponded current hseek
    | prompt seat =>
      cases hobs : Decision.observation e ⟨s.setActionOn (some seat), hasResponded, seat⟩ with
      | none =>
        rw [runBettingRound_blind hseek hobs]
        exact blind _ s hasResponded current seat hseek hobs
      | some obs =>
        rw [runBettingRound_cons hseek hobs]
        exact answered raw answers s hasResponded current seat obs hseek hobs
          fun t hasResponded' current' _ => ih t hasResponded' current'

/-- The engine and the stepper agree on what follows an answer. -/
theorem core_afterRound_answer {answers : List Action} (hround : RoundAgrees e answers)
    {s : GameState n} (deck : Deck) (hasResponded : Fin n → Bool) (seat : Fin n)
    (hboard : BoardFits s) (hmany : s.playersStillIn ≠ 1) :
    core (afterRound (runBettingRound e answers s hasResponded (ringNext seat))
        (runPostflop e (streetsAfter s.street) deck)) =
      GameTree.playFrom e (GameTree.advance e s deck seat hasResponded) answers := by
  have hseek := seek_eq s hasResponded (ringNext seat)
  rw [GameTree.advance, if_neg hmany, ringAfter_eq_ringFrom]
  cases hfind : (ringFrom n (ringNext seat)).find? fun i => s.unsettled hasResponded i with
  | some next =>
    rw [hfind] at hseek
    rw [hround n s deck hasResponded (ringNext seat) next hboard hseek]
    rfl
  | none =>
    rw [hfind] at hseek
    rw [runBettingRound_of_allDone hseek]
    have hfuel : (streetsAfter s.street).length < 4 := by
      cases s.street <;> simp [streetsAfter, Engine.postflop]
    have hrun := core_runPostflop hround (streetsAfter s.street)
      (s := (collectStreetBets s).setActionOn none) deck hfuel rfl hboard fun i => rfl
    simp only [afterRound, List.nil_append]
    exact hrun

/-- From a prompt on, the engine and the stepper agree. -/
theorem roundAgrees (answers : List Action) : RoundAgrees e answers := by
  induction answers with
  | nil =>
    intro n s deck hasResponded current seat hboard hseek
    rw [runBettingRound, hseek]
    have hdecision : (promptTree s deck hasResponded seat).decision? =
        some ⟨s.setActionOn (some seat), hasResponded, seat⟩ := rfl
    cases hobs : Decision.observation e ⟨s.setActionOn (some seat), hasResponded, seat⟩ with
    | none => simp [GameTree.play_of_blind hdecision hobs, hobs, afterRound, core]
    | some obs => simp [GameTree.play_nil hdecision hobs, hobs, afterRound, core]
  | cons raw answers ih =>
    intro n s deck hasResponded current seat hboard hseek
    rw [runBettingRound, hseek]
    have hdecision : (promptTree s deck hasResponded seat).decision? =
        some ⟨s.setActionOn (some seat), hasResponded, seat⟩ := rfl
    cases hobs : Decision.observation e ⟨s.setActionOn (some seat), hasResponded, seat⟩ with
    | none => simp [GameTree.play_of_blind hdecision hobs, hobs, afterRound, core]
    | some obs =>
      rw [GameTree.play_cons hdecision hobs]
      simp only [hobs, Decision.answer, GameTree.applyAction, promptTree]
      set s' := s.setActionOn (some seat) with hs'
      have hstreet := applyAction_street s' seat (Engine.normalizeAction s' seat raw)
      have hboard' := applyAction_board s' seat (Engine.normalizeAction s' seat raw)
      have hstreet₀ : s'.street = s.street := rfl
      have hfits : BoardFits (Engine.applyAction s' seat
          (Engine.normalizeAction s' seat raw)).1 := by
        rw [BoardFits, hboard', hstreet]
        exact hboard
      -- both apply the action alike; the hand ends, or the same streets are left to both
      rcases happlied : Engine.applyAction s' seat (Engine.normalizeAction s' seat raw) with
        ⟨s₁, aggression, events⟩
      rw [happlied] at hstreet hfits
      dsimp only at hstreet hfits ⊢
      by_cases hone : s₁.playersStillIn = 1
      · simp only [if_pos hone, GameTree.advance]
        cases s₁.firstStillIn with
        | none =>
          simp [afterRound, core, List.filter_cons, List.filter_append, GameTree.playFrom]
        | some winner =>
          have halike : SettlesAlike ((Engine.awardUncontested s₁ winner).1.setActionOn none)
              (Engine.awardUncontested s₁ winner).1 := ⟨rfl, rfl, rfl, rfl, rfl⟩
          have hplay := GameTree.play_of_terminal (e := e)
            (t := ⟨(Engine.awardUncontested s₁ winner).1.setActionOn none, deck,
              .terminal (Engine.awardUncontested s₁ winner).2⟩) rfl answers
          simp [afterRound, core, List.filter_cons, List.filter_append, GameTree.playFrom, hplay,
            halike.settle_eq]
      · have hrest := core_afterRound_answer ih deck
          (Engine.respond hasResponded seat aggression) seat hfits hone
        have hstreet' : s₁.street = s.street := hstreet
        rw [hstreet'] at hrest
        simp only [if_neg hone]
        rw [afterRound_append, core_append, hrest]
        rcases GameTree.advance e s₁ deck seat (Engine.respond hasResponded seat aggression) with
            ⟨made, _ | t⟩ <;>
          simp [GameTree.playFrom, List.filter_cons, List.filter_append]

/-! ## The whole hand -/

theorem core_reportEnd (hand : List (Output n) × HandOutcome n) :
    core (reportEnd hand) = reportEnd (core hand) := by
  obtain ⟨made, _ | _ | _ | _⟩ := hand <;> simp [reportEnd, core, List.filter_append]

/-- A hand on the engine does what it does on the stepper, and reports its end. -/
theorem core_runHand (handId deckSeed : ℕ) (order : Fin 52 → Card) (startingStacks : List ℕ)
    (dealer : ℕ) (seatKinds : Option (List SeatKind)) (answers : List Action) :
    core (runHand e handId deckSeed order startingStacks dealer seatKinds answers) =
      reportEnd (GameTree.playHand e handId deckSeed order startingStacks dealer seatKinds
        answers) := by
  rw [runHand, GameTree.playHand, GameTree.new]
  cases hsetup : setupHand e (.new order) (e.initState handId startingStacks dealer) seatKinds with
  | none => simp [core, GameTree.playFrom, reportEnd]
  | some opened =>
    obtain ⟨s, deck, canonicalBb, events⟩ := opened
    have hopened := opened_of_setupHand (Nat.zero_le 52) hsetup
    dsimp only
    rw [core_reportEnd]
    cases hfirst : nextActiveAfter canonicalBb s.players with
    | none =>
      dsimp only
      rw [awardUncontestedAndFinish]
      cases s.firstStillIn with
      | none => simp [core, GameTree.playFrom, List.filter_cons]
      | some winner =>
        -- the stepper clears the action before it awards, which the settlement does not see
        have halike : SettlesAlike ((Engine.awardUncontested s winner).1.setActionOn none)
            (Engine.awardUncontested s winner).1 := ⟨rfl, rfl, rfl, rfl, rfl⟩
        have hplay := GameTree.play_of_terminal (e := e)
          (t := ⟨(Engine.awardUncontested s winner).1.setActionOn none, deck,
            .terminal (Engine.awardUncontested s winner).2⟩) rfl answers
        simp [core, GameTree.playFrom, List.filter_cons, hplay, halike.settle_eq]
    | some first =>
      have hactive := nextActiveAfter_active hfirst
      have hround := roundAgrees (e := e) answers _ s deck (fun _ => false) first first
        (by rw [BoardFits, hopened.board_eq, hopened.street_eq]; rfl)
        (seek_eq_prompt_of_unsettled (by simp [GameState.unsettled, hactive]))
      rw [hopened.street_eq] at hround
      change core (runStreets e deck s first answers) = _ at hround
      dsimp only
      rw [core_append, hround]
      simp [GameTree.playFrom, promptTree, List.filter_cons]

theorem reportEnd_snd (hand : List (Output n) × HandOutcome n) : (reportEnd hand).2 = hand.2 := by
  obtain ⟨made, _ | _ | _ | _⟩ := hand <;> rfl

theorem promptsOf_reportEnd (hand : List (Output n) × HandOutcome n) :
    promptsOf (reportEnd hand).1 = promptsOf hand.1 := by
  obtain ⟨made, _ | _ | _ | _⟩ := hand <;> simp [reportEnd]

theorem promptsOf_core (run : List (Output n) × HandOutcome n) :
    promptsOf (core run).1 = promptsOf run.1 := by
  obtain ⟨made, outcome⟩ := run
  simp only [core]
  induction made with
  | nil => rfl
  | cons output made ih => cases output <;> simp [List.filter_cons, ih]

section Run

variable {handId deckSeed : ℕ} {order : Fin 52 → Card} {startingStacks : List ℕ} {dealer : ℕ}
  {seatKinds : Option (List SeatKind)} {answers : List Action}
  {ok : Decision startingStacks.length → Action → Prop}

theorem runHand_snd :
    (runHand e handId deckSeed order startingStacks dealer seatKinds answers).2 =
      (GameTree.playHand e handId deckSeed order startingStacks dealer seatKinds answers).2 := by
  have h := congrArg Prod.snd
    (core_runHand (e := e) handId deckSeed order startingStacks dealer seatKinds answers)
  rwa [reportEnd_snd] at h

theorem promptsOf_runHand :
    promptsOf (runHand e handId deckSeed order startingStacks dealer seatKinds answers).1 =
      promptsOf
        (GameTree.playHand e handId deckSeed order startingStacks dealer seatKinds answers).1 := by
  rw [← promptsOf_core, core_runHand, promptsOf_reportEnd]

/-- A hand on the engine cannot be set up, or it follows a trace of the stepper
and comes out as the tree at which the trace stops. -/
theorem runHand_trace (ok : Decision startingStacks.length → Action → Prop)
    (hok : ∀ p ∈ answered
      (runHand e handId deckSeed order startingStacks dealer seatKinds answers).1 answers,
      ok p.1 p.2) :
    ((GameTree.new e handId deckSeed order startingStacks dealer seatKinds).2 = none ∧
        (runHand e handId deckSeed order startingStacks dealer seatKinds answers).2 = .panicked) ∨
      ∃ t used rest t',
        (GameTree.new e handId deckSeed order startingStacks dealer seatKinds).2 = some t ∧
          answers = used ++ rest ∧ CS.Trace (GameTree.Step e ok) t used t' ∧
          GameTree.Ends e ok t' rest
            (runHand e handId deckSeed order startingStacks dealer seatKinds answers).2 := by
  rw [answered, promptsOf_runHand] at hok
  rw [runHand_snd]
  rw [GameTree.playHand, GameTree.playFrom] at hok ⊢
  cases hnew : (GameTree.new e handId deckSeed order startingStacks dealer seatKinds).2 with
  | none => exact Or.inl ⟨rfl, rfl⟩
  | some t =>
    rw [hnew] at hok
    simp only [promptsOf_append, promptsOf_events, List.nil_append] at hok
    obtain ⟨used, rest, t', hanswers, htrace, hends⟩ := t.play_trace (e := e) ok answers hok
    exact Or.inr ⟨t, used, rest, t', rfl, hanswers, htrace, hends⟩

/-- A prompt of a hand on the engine is the decision of a tree of the stepper, and
the prompts before it are the decisions taken so far. -/
theorem recall_of_runHand {before after : List (Decision startingStacks.length × Observation)}
    {d : Decision startingStacks.length} {obs : Observation}
    (hprompts : promptsOf
      (runHand e handId deckSeed order startingStacks dealer seatKinds answers).1 =
        before ++ (d, obs) :: after)
    (hok : ∀ p ∈ answered
      (runHand e handId deckSeed order startingStacks dealer seatKinds answers).1 answers,
      ok p.1 p.2) :
    ∃ t used rest t',
      (GameTree.new e handId deckSeed order startingStacks dealer seatKinds).2 = some t ∧
        answers = used ++ rest ∧
        CS.Trace (GameTree.Recalls e ok) (t, []) used (t', before.map Prod.fst) ∧
        t'.decision? = some d ∧ d.observation e = some obs := by
  rw [answered, promptsOf_runHand] at hok
  rw [promptsOf_runHand] at hprompts
  rw [GameTree.playHand, GameTree.playFrom] at hok hprompts
  cases hnew : (GameTree.new e handId deckSeed order startingStacks dealer seatKinds).2 with
  | none => simp [hnew] at hprompts
  | some t =>
    rw [hnew] at hok hprompts
    simp only [promptsOf_append, promptsOf_events, List.nil_append] at hok hprompts
    obtain ⟨used, rest, t', hanswers, htrace, hd, hobs⟩ :=
      @GameTree.recall_of_play _ _ _ _ [] _ _ _ _ _ hprompts hok
    exact ⟨t, used, rest, t', rfl, hanswers, htrace, hd, hobs⟩

/-- A prompt of a hand on the engine is the decision of a tree reached by answers
to the prompts before it. -/
theorem prompt_of_runHand {before after : List (Decision startingStacks.length × Observation)}
    {d : Decision startingStacks.length} {obs : Observation}
    (hprompts : promptsOf
      (runHand e handId deckSeed order startingStacks dealer seatKinds answers).1 =
        before ++ (d, obs) :: after)
    (hok : ∀ p ∈ answered
      (runHand e handId deckSeed order startingStacks dealer seatKinds answers).1 answers,
      ok p.1 p.2) :
    ∃ t used rest t',
      (GameTree.new e handId deckSeed order startingStacks dealer seatKinds).2 = some t ∧
        answers = used ++ rest ∧
        CS.Trace (GameTree.Step e fun d' a => ok d' a ∧ d' ∈ before.map Prod.fst) t used t' ∧
        t'.decision? = some d ∧ d.observation e = some obs := by
  obtain ⟨t, used, rest, t', hnew, hanswers, htrace, hd, hobs⟩ := recall_of_runHand hprompts hok
  exact ⟨t, used, rest, t', hnew, hanswers, (GameTree.Recalls.trace htrace).2, hd, hobs⟩

end Run

end VibePoker.Game
