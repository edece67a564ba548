import VibePoker.Game.Levels
import VibePoker.Game.Simulation
import VibePoker.Math.Rotation

/-!
# The same hand at other seats

The engine names seats by their index and looks for seats clockwise, from the dealer or from
a seat. A hand whose seats are renumbered without changing the clockwise order is the same
hand under the other numbers: the seats are asked in the same order, and paid alike.

## Main definitions

* `Reseating` — what tells two such hands apart
* `GameState.reseat`, `GameTree.reseat`, `reseatRun` — a state, a tree, a run at the other
  seats

## Main results

* `resolveShowdown_reseat` — a showdown pays the same at the other seats
* `applyAction_reseat` — an answer leads on in the same way
* `play_reseat` — a run of the stepper at the other seats
-/

namespace VibePoker.Game

open VibePoker.Core VibePoker.Math

variable {n m : ℕ} {e : Engine}

/-! ## Reseating -/

/-- What tells apart two hands that are played alike at different seats: how the seats are
renumbered, the number of the other hand, and the order of its deck. -/
structure Reseating (n m : ℕ) extends Rotation n m where
  handId : ℕ
  cards : Fin 52 → Card

instance : CoeFun (Reseating n m) fun _ => Fin n → Fin m := ⟨fun μ => μ.toEquiv⟩

variable (μ : Reseating n m)

namespace GameState

/-- The state at the other seats. The engine makes no side pots, whose seats would move too. -/
def reseat (s : GameState n) : GameState m :=
  { handId := μ.handId
    street := s.street
    board := s.board
    players := fun j => s.players (μ.toEquiv.symm j)
    pot := s.pot
    actionOn := s.actionOn.map μ
    dealer := μ.seat s.dealer
    lastAggressor := s.lastAggressor.map μ
    currentBet := s.currentBet
    minRaiseIncrement := s.minRaiseIncrement
    cumulativeShortIncrement := s.cumulativeShortIncrement
    satOut := fun j => s.satOut (μ.toEquiv.symm j) }

@[simp] theorem reseat_players (s : GameState n) (i : Fin n) :
    (s.reseat μ).players (μ i) = s.players i :=
  congrArg s.players (μ.toEquiv.symm_apply_apply i)

@[simp] theorem reseat_currentBet (s : GameState n) :
    (s.reseat μ).currentBet = s.currentBet := rfl

@[simp] theorem reseat_minRaiseIncrement (s : GameState n) :
    (s.reseat μ).minRaiseIncrement = s.minRaiseIncrement := rfl

@[simp] theorem reseat_cumulativeShortIncrement (s : GameState n) :
    (s.reseat μ).cumulativeShortIncrement = s.cumulativeShortIncrement := rfl

@[simp] theorem reseat_board (s : GameState n) : (s.reseat μ).board = s.board := rfl

end GameState

/-- The seat outcomes in the order of the other seats. -/
def HandResult.reseat (result : HandResult) : HandResult :=
  { handId := μ.handId
    board := result.board
    seats := (List.finRange m).filterMap fun j =>
      (result.seats.find? fun o => o.seat = (μ.toEquiv.symm j : ℕ)).map fun o => { o with seat := j } }

def EngineEvent.reseat : EngineEvent → EngineEvent
  | .handStarted _ dealer deckSeed => .handStarted μ.handId (μ.seat dealer) deckSeed
  | .holeCardsDealt seat cards => .holeCardsDealt (μ.seat seat) cards
  | .boardDealt street cards => .boardDealt street cards
  | .actionTaken seat action potTotal => .actionTaken (μ.seat seat) action potTotal
  | .playerAllIn seat totalCommitted => .playerAllIn (μ.seat seat) totalCommitted
  | .handEnded _ result => .handEnded μ.handId (result.reseat μ)

/-- The public part of every seat in the order of the other seats. -/
def reseatPlayers (players : List PublicPlayerState) : List PublicPlayerState :=
  (List.finRange m).filterMap fun j =>
    players[(μ.toEquiv.symm j : ℕ)]?.map fun p => { p with seat := j }

def Observation.reseat (obs : Observation) : Observation :=
  { obs with
    players := reseatPlayers μ obs.players
    position := μ.seat obs.position
    dealer := μ.seat obs.dealer }

def Decision.reseat (d : Decision n) : Decision m :=
  { state := d.state.reseat μ
    hasResponded := fun j => d.hasResponded (μ.toEquiv.symm j)
    seat := μ d.seat }

def Output.reseat : Output n → Output m
  | .event reported => .event (reported.reseat μ)
  | .notify reported => .notify (reported.reseat μ)
  | .prompt d obs => .prompt (d.reseat μ) (obs.reseat μ)

def HandOutcome.reseat : HandOutcome n → HandOutcome m
  | .finished result players chipDeltas rest =>
    .finished (result.reseat μ) (fun j => players (μ.toEquiv.symm j))
      (fun j => chipDeltas (μ.toEquiv.symm j)) rest
  | .waiting => .waiting
  | .panicked => .panicked
  | .spinning => .spinning

/-- A run at the other seats. -/
def reseatRun (run : List (Output n) × HandOutcome n) : List (Output m) × HandOutcome m :=
  (run.1.map (Output.reseat μ), run.2.reseat μ)

def Phase.reseat : Phase n → Phase m
  | .decision current hasResponded =>
    .decision (μ current) fun j => hasResponded (μ.toEquiv.symm j)
  | .terminal chipDeltas => .terminal fun j => chipDeltas (μ.toEquiv.symm j)

namespace GameTree

/-- The tree at the other seats, with the other deck. -/
def reseat (t : GameTree n) : GameTree m :=
  { state := t.state.reseat μ
    deck := { t.deck with cards := μ.cards }
    phase := t.phase.reseat μ }

/-- A tree that was just made or advanced, at the other seats. -/
def reseatStart (start : List EngineEvent × Option (GameTree n)) :
    List EngineEvent × Option (GameTree m) :=
  (start.1.map (EngineEvent.reseat μ), start.2.map (reseat μ))

end GameTree

/-! ## Counting, searching and putting -/

theorem playersStillIn_reseat (s : GameState n) :
    (s.reseat μ).playersStillIn = s.playersStillIn :=
  μ.card_filter fun i => (s.players i).stillIn

theorem activeCount_reseat (s : GameState n) :
    activeCount (s.reseat μ).players = activeCount s.players :=
  μ.card_filter fun i => (s.players i).status = .active

theorem potTotal_reseat (s : GameState n) : (s.reseat μ).potTotal = s.potTotal :=
  congrArg (s.pot.total + ·) (μ.sum fun i => (s.players i).betThisStreet)

theorem nextActiveAfter_reseat (s : GameState n) (start : ℕ) :
    nextActiveAfter (μ.seat start) (s.reseat μ).players =
      (nextActiveAfter start s.players).map μ := by
  rw [nextActiveAfter, μ.find?_ringAfter]
  simp only [GameState.reseat_players]
  rfl

/-- The only seat that is still in is found under either numbering. -/
theorem firstStillIn_reseat {s : GameState n} (hone : s.playersStillIn = 1) :
    (s.reseat μ).firstStillIn = s.firstStillIn.map μ := by
  obtain ⟨only, honly⟩ := Finset.card_eq_one.mp hone
  have hin : ∀ i, (s.players i).stillIn ↔ i = only := fun i => by
    have := congrArg (i ∈ ·) honly
    simpa using this
  have hfirst : s.firstStillIn = some only := by
    rw [GameState.firstStillIn, List.find?_eq_some_iff_append]
    obtain ⟨before, after, hsplit⟩ := List.append_of_mem (List.mem_finRange only)
    refine ⟨(hin only).mpr rfl, before, after, hsplit, fun i hi => ?_⟩
    have hne : i ≠ only := by
      rintro rfl
      have hnodup := List.nodup_finRange n
      rw [hsplit] at hnodup
      exact (List.nodup_append.mp hnodup).2.2 i hi i List.mem_cons_self rfl
    simpa using mt (hin i).mp hne
  cases hfind : (s.reseat μ).firstStillIn with
  | none =>
    have := (find?_finRange_eq_none_iff _).mp hfind (μ only)
    rw [GameState.reseat_players, (hin only).mpr rfl] at this
    cases this
  | some j =>
    have hj : ((s.reseat μ).players j).stillIn := by simpa using List.find?_some hfind
    obtain rfl : μ only = j := by
      rw [← (hin (μ.toEquiv.symm j)).mp hj, Equiv.apply_symm_apply]
    rw [hfirst, Option.map_some]

theorem setPlayer_reseat (s : GameState n) (i : Fin n) (p : PlayerState) :
    (s.reseat μ).setPlayer (μ i) p = (s.setPlayer i p).reseat μ := by
  simp only [GameState.setPlayer, GameState.reseat, GameState.mk.injEq, true_and, and_true]
  funext j
  by_cases hj : j = μ i
  · subst hj
    simp
  · rw [Function.update_of_ne hj, Function.update_of_ne]
    exact fun h => hj (by rw [← h, Equiv.apply_symm_apply])

theorem setActionOn_reseat (s : GameState n) (seat : Option (Fin n)) :
    (s.reseat μ).setActionOn (seat.map μ) = (s.setActionOn seat).reseat μ := rfl

theorem beginStreet_reseat (s : GameState n) (street : Street) :
    e.beginStreet (s.reseat μ) street = (e.beginStreet s street).reseat μ := rfl

theorem collectStreetBets_reseat (s : GameState n) :
    collectStreetBets (s.reseat μ) = (collectStreetBets s).reseat μ := by
  have hsum : ∑ j, ((s.reseat μ).players j).betThisStreet = ∑ i, (s.players i).betThisStreet :=
    μ.sum fun i => (s.players i).betThisStreet
  rw [collectStreetBets, hsum]
  rfl

theorem firstToAct_reseat (s : GameState n) :
    Engine.firstToAct (s.reseat μ) = (Engine.firstToAct s).map μ := by
  rw [Engine.firstToAct, Engine.firstToAct, activeCount_reseat]
  split
  · exact nextActiveAfter_reseat μ s s.dealer
  · rfl

/-! ## The showdown -/

theorem handRank_reseat (s : GameState n) (i : Fin n) :
    handRank e s.board (s.reseat μ).players (μ i) = handRank e s.board s.players i := by
  rw [handRank, handRank, GameState.reseat_players]

theorem strongest_reseat (s : GameState n) {eligible : List (Fin n)} {eligible' : List (Fin m)}
    (h : eligible'.Perm (eligible.map μ)) :
    (strongest e s.board (s.reseat μ).players eligible').Perm
      ((strongest e s.board s.players eligible).map μ) := by
  rw [strongest, strongest]
  have hall : ∀ j, (eligible'.all fun k => handRank e s.board (s.reseat μ).players k ≤
      handRank e s.board (s.reseat μ).players j) =
      ((eligible.map μ).all fun k => handRank e s.board (s.reseat μ).players k ≤
        handRank e s.board (s.reseat μ).players j) := by
    intro j
    rw [Bool.eq_iff_iff, List.all_eq_true, List.all_eq_true]
    simp only [h.mem_iff]
  simp only [hall]
  refine (h.filter _).trans (List.Perm.of_eq ?_)
  rw [List.filter_map]
  refine congrArg (List.map μ) (List.filter_congr fun i _ => ?_)
  simp only [Function.comp_def, List.all_map, handRank_reseat]

theorem splitPot_reseat (dealer amount : ℕ) {winners : List (Fin n)} {winners' : List (Fin m)}
    (h : winners'.Perm (winners.map μ)) (i : Fin n) :
    Engine.splitPot (μ.seat dealer) amount winners' (μ i) =
      Engine.splitPot dealer amount winners i := by
  have hlength : winners'.length = winners.length := h.length_eq.trans (List.length_map _)
  have hmem : ∀ i, μ i ∈ winners' ↔ i ∈ winners := fun i => by
    rw [h.mem_iff, List.mem_map_of_injective μ.toEquiv.injective]
  simp only [Engine.splitPot, hlength, μ.find?_ringAfter, hmem]
  have hfirst : ∀ found : Option (Fin n), found.map μ = some (μ i) ↔ found = some i := fun found =>
    (Option.map_injective μ.toEquiv.injective).eq_iff (b := some i)
  simp only [hfirst]

theorem showdownRanks_ne_none {s : GameState n} {eligible : List (Fin n)}
    {ranks : List (Fin n × ℕ)} (h : e.showdownRanks s eligible = some ranks) :
    ∀ i ∈ eligible, (s.players i).holeCards ≠ none := by
  induction eligible generalizing ranks with
  | nil => simp
  | cons i eligible ih =>
    simp only [Engine.showdownRanks, List.mapM_cons, Option.pure_def, Option.bind_eq_bind,
      Option.bind_eq_some_iff, Option.map_eq_some_iff] at h
    obtain ⟨head, ⟨hole, hhole, -⟩, rest, hrest, -⟩ := h
    refine List.forall_mem_cons.mpr ⟨by simp [hhole], ih hrest⟩

/-- A pot cannot be paid when it needs a showdown and a seat of it has no cards. -/
theorem awardPot_eq_none_iff {s : GameState n} {amount : ℕ} {eligible : List (Fin n)} :
    e.awardPot s (amount, eligible) = none ↔
      amount ≠ 0 ∧ 2 ≤ eligible.length ∧ ∃ i ∈ eligible, (s.players i).holeCards = none := by
  simp only [Engine.awardPot]
  split
  case isTrue hnone =>
    rcases hnone with rfl | rfl <;> simp
  case isFalse hsome =>
    obtain ⟨hne, hpos⟩ := not_or.mp hsome
    split
    case h_1 => simp
    case h_2 hmany =>
      have hlength : 2 ≤ eligible.length := by
        rcases eligible with - | ⟨seat, - | ⟨next, others⟩⟩
        · exact absurd rfl hne
        · exact absurd rfl (hmany seat)
        · simp
      rw [Option.bind_eq_bind, Option.bind_eq_none_iff]
      constructor
      · intro h
        refine ⟨hpos, hlength, ?_⟩
        by_contra hcards
        obtain ⟨ranks, hranks⟩ : ∃ ranks, e.showdownRanks s eligible = some ranks :=
          showdownRanks_isSome fun i hi hnone => hcards ⟨i, hi, hnone⟩
        exact absurd (h ranks hranks) (by simp)
      · rintro ⟨-, -, i, hi, hnone⟩ ranks hranks
        exact absurd hnone (showdownRanks_ne_none hranks i hi)

theorem awardPot_reseat (s : GameState n) (amount : ℕ) {eligible : List (Fin n)}
    {eligible' : List (Fin m)} (h : eligible'.Perm (eligible.map μ)) :
    e.awardPot (s.reseat μ) (amount, eligible') =
      (e.awardPot s (amount, eligible)).map fun award j => award (μ.toEquiv.symm j) := by
  have hlength : eligible'.length = eligible.length := h.length_eq.trans (List.length_map _)
  have hcards : (∃ j ∈ eligible', ((s.reseat μ).players j).holeCards = none) ↔
      ∃ i ∈ eligible, (s.players i).holeCards = none := by
    simp only [h.mem_iff, List.mem_map, exists_exists_and_eq_and, GameState.reseat_players]
  have hnone : e.awardPot (s.reseat μ) (amount, eligible') = none ↔
      e.awardPot s (amount, eligible) = none := by
    rw [awardPot_eq_none_iff, awardPot_eq_none_iff, hlength, hcards]
  cases haward : e.awardPot s (amount, eligible) with
  | none => exact hnone.mpr haward
  | some award =>
    obtain ⟨award', haward'⟩ := Option.ne_none_iff_exists'.mp (mt hnone.mp (by simp [haward]))
    rw [haward', Option.map_some]
    congr 1
    funext j
    obtain ⟨i, rfl⟩ := μ.toEquiv.surjective j
    rw [awardPot_eq_some haward, awardPot_eq_some haward', Equiv.symm_apply_apply]
    exact splitPot_reseat μ s.dealer amount (strongest_reseat μ s h) i

/-! ### The pots -/

theorem commitmentLevels_reseat (s : GameState n) :
    commitmentLevels (s.reseat μ).players = commitmentLevels s.players := by
  have hperm : ((List.finRange m).map fun j => ((s.reseat μ).players j).totalCommitted).Perm
      ((List.finRange n).map fun i => (s.players i).totalCommitted) := by
    refine (μ.finRange_perm.map _).trans (List.Perm.of_eq ?_)
    simp only [List.map_map, Function.comp_def, GameState.reseat_players]
  rw [commitmentLevels, commitmentLevels]
  congr 1
  refine List.Perm.eq_of_sortedLE (List.sortedLE_insertionSort) (List.sortedLE_insertionSort) ?_
  exact (List.perm_insertionSort _ _).trans
    ((hperm.filter _).trans (List.perm_insertionSort _ _).symm)

theorem contributors_reseat (s : GameState n) (level : ℕ) :
    contributors (s.reseat μ).players level = contributors s.players level :=
  μ.card_filter fun i => level ≤ (s.players i).totalCommitted

theorem eligibleSeats_reseat (s : GameState n) (level : ℕ) :
    (eligibleSeats (s.reseat μ).players level).Perm ((eligibleSeats s.players level).map μ) := by
  refine (μ.finRange_perm.filter _).trans (List.Perm.of_eq ?_)
  rw [List.filter_map]
  refine congrArg (List.map μ) (List.filter_congr fun i _ => ?_)
  simp only [Function.comp_apply, GameState.reseat_players]

theorem contestedLevel_reseat (s : GameState n) :
    contestedLevel (s.reseat μ).players = contestedLevel s.players :=
  μ.sup_filter (fun i => (s.players i).status ≠ .folded) fun i => (s.players i).totalCommitted

theorem potAt_reseat (s : GameState n) (level : ℕ) :
    potAt (s.reseat μ).players level = potAt s.players level := by
  have hbelow : levelBelow (s.reseat μ).players level = levelBelow s.players level :=
    μ.sup_filter (fun i => (s.players i).totalCommitted < level)
      fun i => (s.players i).totalCommitted
  have habove : ∑ j, (((s.reseat μ).players j).totalCommitted - level) =
      ∑ i, ((s.players i).totalCommitted - level) :=
    μ.sum fun i => (s.players i).totalCommitted - level
  rw [potAt, potAt, sliceAt, sliceAt, hbelow, habove, contributors_reseat, contestedLevel_reseat]

/-- The pots pay the same at the other seats. -/
theorem awardPots_reseat (s : GameState n) :
    e.awardPots (s.reseat μ) (buildShowdownPots (s.reseat μ).players) =
      (e.awardPots s (buildShowdownPots s.players)).map fun awards j =>
        awards (μ.toEquiv.symm j) := by
  have hlevels : contestedLevels (s.reseat μ).players = contestedLevels s.players := by
    rw [contestedLevels, contestedLevels, commitmentLevels_reseat, contestedLevel_reseat]
  rw [buildShowdownPots_eq_map, buildShowdownPots_eq_map, hlevels]
  induction contestedLevels s.players with
  | nil => rfl
  | cons level levels ih =>
    rw [List.map_cons, List.map_cons, Engine.awardPots, Engine.awardPots, potAt_reseat,
      awardPot_reseat μ s _ (eligibleSeats_reseat μ s level), ih]
    cases e.awardPot s (potAt s.players level, eligibleSeats s.players level) with
    | none => rfl
    | some award =>
      cases e.awardPots s (levels.map fun level =>
        (potAt s.players level, eligibleSeats s.players level)) <;> rfl

/-- A showdown pays the same at the other seats. -/
theorem resolveShowdown_reseat (s : GameState n) :
    e.resolveShowdown (s.reseat μ) =
      (e.resolveShowdown s).map fun resolved =>
        (resolved.1.reseat μ, fun j => resolved.2 (μ.toEquiv.symm j)) := by
  rw [Engine.resolveShowdown, Engine.resolveShowdown, GameState.reseat_board]
  by_cases hboard : s.board.length = 5
  · rw [if_pos hboard, if_pos hboard, awardPots_reseat]
    cases e.awardPots s (buildShowdownPots s.players) <;> rfl
  · rw [if_neg hboard, if_neg hboard]
    rfl

/-- The winner of a pot that nobody contests is paid at the other seat. -/
theorem awardUncontested_reseat (s : GameState n) (winner : Fin n) :
    Engine.awardUncontested (s.reseat μ) (μ winner) =
      ((Engine.awardUncontested s winner).1.reseat μ,
        fun j => (Engine.awardUncontested s winner).2 (μ.toEquiv.symm j)) := by
  have hseat : ∀ j, j = μ winner ↔ μ.toEquiv.symm j = winner := fun j =>
    (Equiv.symm_apply_eq μ.toEquiv).symm
  simp only [Engine.awardUncontested, collectStreetBets_reseat, hseat]
  rfl

/-! ## Acting -/

theorem normalizeAction_reseat (s : GameState n) (i : Fin n) (action : Action) :
    Engine.normalizeAction (s.reseat μ) (μ i) action = Engine.normalizeAction s i action := by
  cases action with
  | raise amount =>
    simp only [Engine.normalizeAction, GameState.reseat_players]
    rfl
  | _ => rfl

theorem computeLegalActions_reseat (s : GameState n) (i : Fin n) (canReopen : Bool) :
    e.computeLegalActions (s.reseat μ) (μ i) canReopen = e.computeLegalActions s i canReopen := by
  simp only [Engine.computeLegalActions, GameState.reseat_players]
  rfl

theorem performAction_reseat (s : GameState n) (i : Fin n) (action : Action) :
    Engine.performAction (s.reseat μ) (μ i) action =
      ((Engine.performAction s i action).1.reseat μ, (Engine.performAction s i action).2.1,
        (Engine.performAction s i action).2.2.map (EngineEvent.reseat μ)) := by
  have hevent : ∀ total, EngineEvent.reseat μ (.playerAllIn i total) = .playerAllIn (μ i) total :=
    fun total => congrArg (EngineEvent.playerAllIn · total) (μ.seat_val i)
  cases action with
  | check => rfl
  | fold =>
    simp only [Engine.performAction, GameState.reseat_players, setPlayer_reseat]
    rfl
  | call =>
    simp only [Engine.performAction, GameState.reseat_players, GameState.reseat_currentBet,
      setPlayer_reseat]
    refine Prod.ext rfl (Prod.ext rfl ?_)
    dsimp only
    split
    · rw [List.map_singleton, hevent]
    · rfl
  | raise amount =>
    simp only [Engine.performAction, GameState.reseat_players, GameState.reseat_currentBet,
      setPlayer_reseat]
    rfl
  | allIn =>
    simp only [Engine.performAction, GameState.reseat_players, GameState.reseat_currentBet,
      GameState.reseat_minRaiseIncrement, GameState.reseat_cumulativeShortIncrement,
      setPlayer_reseat]
    split_ifs <;> rw [List.map_singleton, hevent] <;> rfl

theorem applyAction_reseat (s : GameState n) (i : Fin n) (action : Action) :
    Engine.applyAction (s.reseat μ) (μ i) action =
      ((Engine.applyAction s i action).1.reseat μ, (Engine.applyAction s i action).2.1,
        (Engine.applyAction s i action).2.2.map (EngineEvent.reseat μ)) := by
  have htaken : ∀ total, EngineEvent.reseat μ (.actionTaken i action total) =
      .actionTaken (μ i) action total :=
    fun total => congrArg (EngineEvent.actionTaken · action total) (μ.seat_val i)
  simp only [Engine.applyAction, performAction_reseat, potTotal_reseat, List.map_append,
    List.map_singleton, htaken]

theorem respond_reseat (hasResponded : Fin n → Bool) (i : Fin n) (wasAggression : Bool) :
    Engine.respond (fun j => hasResponded (μ.toEquiv.symm j)) (μ i) wasAggression =
      fun j => Engine.respond hasResponded i wasAggression (μ.toEquiv.symm j) := by
  funext j
  have hseat : j = μ i ↔ μ.toEquiv.symm j = i := (Equiv.symm_apply_eq μ.toEquiv).symm
  simp only [Engine.respond, hseat]

theorem publicPlayers_reseat (s : GameState n) :
    publicPlayers (s.reseat μ).players = reseatPlayers μ (publicPlayers s.players) := by
  have hview : ∀ j : Fin m, ((publicPlayers s.players)[(μ.toEquiv.symm j : ℕ)]?.map
      fun p => { p with seat := (j : ℕ) }) =
      some
        { seat := j
          stack := ((s.reseat μ).players j).stack
          betThisStreet := ((s.reseat μ).players j).betThisStreet
          isFolded := ((s.reseat μ).players j).status = .folded
          isAllIn := ((s.reseat μ).players j).status = .allIn } := by
    intro j
    rw [publicPlayers, List.getElem?_ofFn, dif_pos (μ.toEquiv.symm j).isLt]
    rfl
  rw [reseatPlayers, publicPlayers, List.ofFn_eq_map]
  simp only [hview, List.filterMap_eq_map']

theorem observation_reseat (d : Decision n) :
    (d.reseat μ).observation e = (d.observation e).map (Observation.reseat μ) := by
  have hresponded : (d.reseat μ).hasResponded (d.reseat μ).seat = d.hasResponded d.seat :=
    congrArg d.hasResponded (μ.toEquiv.symm_apply_apply d.seat)
  have hposition : ((μ d.seat : Fin m) : ℕ) = μ.seat d.seat := (μ.seat_val d.seat).symm
  rw [Decision.observation, Decision.observation, hresponded]
  simp only [Decision.reseat, GameState.reseat_players, computeLegalActions_reseat,
    publicPlayers_reseat, hposition, Option.map_map]
  rfl

end VibePoker.Game
