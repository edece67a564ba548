import Mathlib.Data.Set.Finite.List
import VibePoker.Math.Sessions
import VibePoker.Trainer.Training

/-!
# What a seat remembers

An info set names the class of the hole cards before the flop only. After the flop a seat has
forgotten it, and with it what it did before the flop. Before the flop it remembers its play: the
two seats take turns, so that every other abstract action of the history is its own.

## Main definitions

* `Preflop` — the info sets before the flop of one position
* `ownChoices` — what an info set before the flop remembers

## Main results

* `turn_of_step` — before the flop the seats take turns
* `recalls_of_orderly` — before the flop each seat remembers its play
* `infos_finite` — there are only so many info sets before the flop
-/

namespace VibePoker.Trainer

open VibePoker.Core VibePoker.CS VibePoker.Abstraction VibePoker.Math VibePoker.Game

variable {n : ℕ} {e : Engine}

/-! ## Turns -/

section Turns

variable {start : Fin n → ℕ} {dealt : ℕ} {deck : Deck} {d d' : Decision n} {action : Action}
  {t t' : GameTree n}

/-- A legal answer that is applied as a check has nothing to pay. -/
theorem owed_eq_zero_of_check (hlegal : d.legal e action)
    (hnorm : Engine.normalizeAction d.state d.seat action = .check) :
    d.state.currentBet - (d.state.players d.seat).betThisStreet = 0 := by
  cases action with
  | check => simpa [Decision.legal, LegalActions.isLegal, Engine.computeLegalActions] using hlegal
  | raise amount =>
    simp only [Engine.normalizeAction] at hnorm
    split_ifs at hnorm with _ _ howed
    exact howed
  | fold => cases hnorm
  | call => cases hnorm
  | allIn => cases hnorm

/-- A seat that answers legally has then settled what it owes. -/
theorem settled_acted (h : Orderly start dealt deck d) (hlegal : d.legal e action) :
    (d.acted action).unsettled (d.respondedAfter action) d.seat = false := by
  have hbet := h.bounded d.seat
  have hresponded : d.respondedAfter action d.seat = true := if_pos rfl
  rw [GameState.unsettled, hresponded, Bool.and_true]
  cases hnorm : Engine.normalizeAction d.state d.seat action with
  | fold => simp [Decision.acted, hnorm, Engine.performAction]
  | check =>
    have howed := owed_eq_zero_of_check hlegal hnorm
    have hmatched : (d.state.players d.seat).betThisStreet = d.state.currentBet := by omega
    simp [Decision.acted, hnorm, Engine.performAction, hmatched]
  | call =>
    -- a call that does not match the bet takes all chips
    simp only [Decision.acted, hnorm, Engine.performAction, setPlayer_self,
      GameState.setPlayer_currentBet, Bool.and_eq_false_iff, decide_eq_false_iff_not,
      Bool.not_eq_false', decide_eq_true_eq, PlayerState.putAllIn]
    by_cases hall : ((d.state.players d.seat).put
        (d.state.currentBet - (d.state.players d.seat).betThisStreet)).stack = 0
    · simp [hall]
    · rw [if_neg hall]
      rw [PlayerState.put_stack] at hall
      rw [PlayerState.put_bet]
      omega
  | raise amount => simp [Decision.acted, hnorm, Engine.performAction]
  | allIn =>
    simp only [Decision.acted, hnorm, Engine.performAction]
    split_ifs <;> simp

/-- What carries over from a decision to the next one: the dealer, the hole cards, and the seat's
turn. A round before the flop was one before it too, and then another seat is asked. -/
structure Carries (d d' : Decision n) : Prop where
  dealer_eq : d'.state.dealer = d.state.dealer
  holeCards_eq : ∀ i, (d'.state.players i).holeCards = (d.state.players i).holeCards
  preflop : d'.state.street = .preflop → d.state.street = .preflop ∧ d'.seat ≠ d.seat

theorem holeCards_acted (h : Orderly start dealt deck d) (action : Action) (i : Fin n) :
    ((d.acted action).players i).holeCards = (d.state.players i).holeCards := by
  by_cases hi : i = d.seat
  · subst hi
    exact (h.actedBy action).acts.holeCards_eq
  · rw [(h.actedBy action).others i hi]

theorem streetsLeft_le (s : GameState n) : s.streetsLeft ≤ 3 := by
  rw [GameState.streetsLeft]
  cases s.street <;> decide

/-- One legal answer further. -/
theorem turn_of_step (h : Orderly start dealt t.deck d) (hd : t.decision? = some d)
    (hlegal : d.legal e action) (hstep : (t.applyAction e action).2 = some t')
    (hd' : t'.decision? = some d') : Carries d d' := by
  have hdealer : (d.acted action).dealer = d.state.dealer := performAction_dealer _ _ _
  have hstreet : (d.acted action).street = d.state.street := performAction_street _ _ _
  cases (h.toPlaying.follows hd hstep).nextDecision hd' with
  | next seat hmany hopen =>
    refine ⟨hdealer, holeCards_acted h action, fun hpreflop => ⟨hstreet ▸ hpreflop, ?_⟩⟩
    rintro rfl
    rw [settled_acted h hlegal] at hopen
    cases hopen
  | street s' deck' first hmany hdone hlater hfresh hleft hfirst =>
    refine ⟨hlater.dealer_eq.trans hdealer, fun i => ?_, fun hpreflop => ?_⟩
    · have hcards : (s'.players i).holeCards = ((d.acted action).players i).holeCards := by
        rw [hlater.players_eq]
        rfl
      exact hcards.trans (holeCards_acted h action i)
    · -- a later street is not the first one
      have hthree : s'.streetsLeft = 3 := by
        rw [GameState.streetsLeft, show s'.street = .preflop from hpreflop]
        rfl
      have hle := streetsLeft_le (d.acted action)
      omega

end Turns

/-- The trees of a path are in order. -/
theorem orderlyTree_of_descends {start : Fin n → ℕ} {dealt : ℕ} {t t' : GameTree n}
    {choices : List AbstractAction} (h : OrderlyTree start dealt t)
    (hblind : 0 < e.rules.bigBlind) (hpath : Trace (Descends e) t choices t') :
    OrderlyTree start dealt t' := by
  induction hpath with
  | nil => exact h
  | cons head tail ih =>
    obtain ⟨d, obs, hd, -, hstep⟩ := descend_eq_some_iff.mp head
    have hmove : GameTree.Step e (fun _ _ => True) _ (concretize _ obs) _ := ⟨d, hd, trivial, hstep⟩
    exact ih (h.step hblind hmove)

/-! ## Info sets before the flop -/

/-- The info sets before the flop of one position. -/
def Preflop (position : ℕ) (J : InfoSet) : Prop := J.street = .preflop ∧ J.position = position

instance preflop_decidable (position : ℕ) : DecidablePred (Preflop position) := fun J =>
  inferInstanceAs (Decidable (J.street = .preflop ∧ J.position = position))

/-- Every other choice of a history, the last first, with the info sets at which the seat of `J`
made them. -/
def ownChoicesRev (J : InfoSet) : List AbstractAction → List (InfoSet × AbstractAction)
  | _ :: a :: earlier =>
    ownChoicesRev J earlier ++ [({ J with history := earlier.reverse }, a)]
  | _ => []

/-- What an info set before the flop remembers: the choices of its own seat, which is asked every
other time. -/
def ownChoices (J : InfoSet) : List (InfoSet × AbstractAction) := ownChoicesRev J J.history.reverse

theorem ownChoicesRev_congr (J : InfoSet) (history line : List AbstractAction) :
    ownChoicesRev { J with history := history } line = ownChoicesRev J line := by
  induction line using ownChoicesRev.induct with
  | case1 b a earlier ih => rw [ownChoicesRev, ownChoicesRev, ih]
  | case2 line hline =>
    cases line with
    | nil => rfl
    | cons b line =>
      cases line with
      | nil => rfl
      | cons a line => exact absurd rfl (hline b a line)

/-- Two choices later a seat remembers its own one of them. -/
theorem ownChoices_append (J : InfoSet) (a b : AbstractAction) :
    ownChoices { J with history := J.history ++ [a] ++ [b] } = ownChoices J ++ [(J, a)] := by
  rw [ownChoices, ownChoicesRev_congr]
  simp only [List.reverse_append, List.reverse_cons, List.reverse_nil, List.nil_append,
    List.cons_append]
  rw [ownChoicesRev, List.reverse_reverse, ownChoices]

theorem ownChoices_of_length_le {J : InfoSet} (h : J.history.length ≤ 1) : ownChoices J = [] := by
  rw [ownChoices]
  rcases hrev : J.history.reverse with _ | ⟨b, _ | ⟨a, earlier⟩⟩
  · rfl
  · rfl
  · have hlength := congrArg List.length hrev
    rw [List.length_reverse, List.length_cons, List.length_cons] at hlength
    omega

/-- The info set of a decision. -/
theorem fromObservation_eq {d : Decision n} {obs : Observation} (h : d.observation e = some obs)
    (history : List AbstractAction) :
    ∃ hole, (d.state.players d.seat).holeCards = some hole ∧
      InfoSet.fromObservation obs history =
        ⟨d.state.street, relativePosition d.seat d.state.dealer n,
          if d.state.street = .preflop then (PreflopClass.fromHole hole).index else 0,
          history⟩ := by
  obtain ⟨hole, hhole, rfl⟩ := Option.map_eq_some_iff.mp h
  refine ⟨hole, hhole, ?_⟩
  rw [InfoSet.fromObservation]
  simp only [publicPlayers, List.length_ofFn]

section Game

variable {start : Fin n → ℕ} {dealt : ℕ} {position : ℕ} {i : Fin n}

/-- What an info set of seat `i` in a game tells of the decision at which the game starts. -/
structure NamedAfter (i : Fin n) (d : Decision n) (history : List AbstractAction) (J : InfoSet) :
    Prop where
  position_eq : J.position = relativePosition i d.state.dealer n
  preflop : J.street = .preflop → d.state.street = .preflop
  bucket_lt : J.bucket < 169
  length_le : J.history.length ≤ history.length + d.rank

/-- A game with info sets starts at a decision. -/
theorem exists_decision_of_mem {fuel : ℕ} {t : GameTree n} {history : List AbstractAction}
    {J : InfoSet} (hJ : J ∈ (abstractGame e fuel t history).infosOf (· = i)) :
    ∃ d, t.decision? = some d := by
  rcases abstractGame_cases e fuel t history with ⟨utility, hgame⟩ | ⟨_, d, _, _, hd, _⟩
  · rw [hgame] at hJ
    exact hJ.elim
  · exact ⟨d, hd⟩

theorem namedAfter_of_mem (hvariant : e.rules.variant = .noLimit) (hblind : 0 < e.rules.bigBlind)
    {fuel : ℕ} {t : GameTree n} (h : OrderlyTree start dealt t) {history : List AbstractAction}
    {d : Decision n} (hd : t.decision? = some d) {J : InfoSet}
    (hJ : J ∈ (abstractGame e fuel t history).infosOf (· = i)) : NamedAfter i d history J := by
  induction fuel generalizing t history d with
  | zero => exact hJ.elim
  | succ fuel ih =>
    rcases abstractGame_cases e (fuel + 1) t history with ⟨utility, hgame⟩ |
      ⟨_, d₀, obs, hfuel, hd₀, hobs, hlegal, hgame⟩
    · rw [hgame] at hJ
      exact hJ.elim
    · obtain rfl := Nat.succ.inj hfuel
      obtain rfl : d = d₀ := Option.some.inj (hd.symm.trans hd₀)
      rw [GameTree.observationOwned_of_decision hd] at hobs
      rw [hgame] at hJ
      rcases hJ with ⟨rfl, rfl⟩ | ⟨a, ha, hJ⟩
      · obtain ⟨hole, -, hinfo⟩ := fromObservation_eq hobs history
        rw [hinfo]
        refine ⟨rfl, id, ?_, Nat.le_add_right _ _⟩
        dsimp only
        split
        · exact PreflopClass.index_lt _
        · decide
      · cases hstep : (t.applyAction e (concretize a obs)).2 with
        | none =>
          rw [gameAfter, hstep] at hJ
          exact hJ.elim
        | some t' =>
          rw [gameAfter_of_step hstep] at hJ
          have hconcrete := legal_concretize hvariant hobs ha
          have horderly := h.step hblind ⟨d, hd, hconcrete, hstep⟩
          obtain ⟨d', hd'⟩ := exists_decision_of_mem hJ
          have hcarries := turn_of_step (h d hd) hd hconcrete hstep hd'
          have hless := rank_lt (h d hd) hconcrete ((h d hd).toPlaying.follows hd hstep) hd'
          have hnamed := ih horderly hd' hJ
          refine ⟨?_, fun hpreflop => (hcarries.preflop (hnamed.preflop hpreflop)).1,
            hnamed.bucket_lt, ?_⟩
          · rw [hnamed.position_eq, hcarries.dealer_eq]
          · have hlength := hnamed.length_le
            rw [List.length_append, List.length_singleton] at hlength
            omega

/-- The info sets of seat `i` before the flop, with a class of hole cards. -/
def preflopInfo (n : ℕ) (i : Fin n) (dealer bucket : ℕ) (history : List AbstractAction) : InfoSet :=
  ⟨.preflop, relativePosition i dealer n, bucket, history⟩

/-- Where the next turn of seat `i` is at a decision: what it remembers there. -/
structure Recalled (i : Fin n) (bucket : ℕ) (d : Decision n) (history : List AbstractAction)
    (past : List (InfoSet × AbstractAction)) : Prop where
  bucket_eq : ∀ hole, (d.state.players i).holeCards = some hole →
    (PreflopClass.fromHole hole).index = bucket
  own : d.state.street = .preflop → d.seat = i →
    past = ownChoices (preflopInfo n i d.state.dealer bucket history)
  other : d.state.street = .preflop → d.seat ≠ i → ∀ b,
    past = ownChoices (preflopInfo n i d.state.dealer bucket (history ++ [b]))

/-- A turn further: where the seat's own choice is remembered at its next turn, and the other
seat's choice is not, the next decision is where the seat remembers what it should. -/
theorem Recalled.step (hseats : n = 2) {bucket : ℕ} {d d' : Decision n}
    {history : List AbstractAction} {past past' : List (InfoSet × AbstractAction)}
    (h : Recalled i bucket d history past) (hcarries : Carries d d') (a : AbstractAction)
    (hown : d.seat = i → ∀ b,
      past' = ownChoices (preflopInfo n i d.state.dealer bucket (history ++ [a] ++ [b])))
    (hother : d.seat ≠ i →
      past' = ownChoices (preflopInfo n i d.state.dealer bucket (history ++ [a]))) :
    Recalled i bucket d' (history ++ [a]) past' where
  bucket_eq hole hhole := h.bucket_eq hole (hcarries.holeCards_eq i ▸ hhole)
  own hpreflop hseat := by
    rw [hcarries.dealer_eq]
    exact hother fun hsame => (hcarries.preflop hpreflop).2 (hseat.trans hsame.symm)
  other hpreflop hseat := by
    -- of two seats it is the other one's turn
    have hturn := (hcarries.preflop hpreflop).2
    rw [hcarries.dealer_eq]
    apply hown
    rw [Ne, Fin.ext_iff] at hturn hseat
    rw [Fin.ext_iff]
    omega

/-- Before the flop a seat of two remembers its play. -/
theorem recalls_of_orderly (hseats : n = 2) (hvariant : e.rules.variant = .noLimit)
    (hblind : 0 < e.rules.bigBlind) {fuel : ℕ} {t : GameTree n} {bucket : ℕ}
    (h : OrderlyTree start dealt t) {history : List AbstractAction}
    {past : List (InfoSet × AbstractAction)}
    (hpast : ∀ d, t.decision? = some d → Recalled i bucket d history past) :
    (abstractGame e fuel t history).Recalls i (Preflop position) ownChoices past := by
  induction fuel generalizing t history past with
  | zero => trivial
  | succ fuel ih =>
    rcases abstractGame_cases e (fuel + 1) t history with ⟨utility, hgame⟩ |
      ⟨_, d, obs, hfuel, hd, hobs, hlegal, hgame⟩
    · rw [hgame]
      trivial
    · obtain rfl := Nat.succ.inj hfuel
      have hnamed : ∀ J ∈ (abstractGame e (fuel + 1) t history).infosOf (· = i),
          NamedAfter i d history J := fun J hJ => namedAfter_of_mem hvariant hblind h hd hJ
      have hrecalled := hpast d hd
      rw [GameTree.observationOwned_of_decision hd] at hobs
      by_cases hstreet : d.state.street = .preflop
      case neg =>
        apply GameForm.recalls_of_none
        exact fun J hJ hK => hstreet ((hnamed J hJ).preflop hK.1)
      -- what the seat remembers under an option
      have hbelow : ∀ a (past' : List (InfoSet × AbstractAction)),
          a ∈ legalAbstractActions obs.legalActions →
          (d.seat = i → ∀ b,
            past' = ownChoices (preflopInfo n i d.state.dealer bucket (history ++ [a] ++ [b]))) →
          (d.seat ≠ i →
            past' = ownChoices (preflopInfo n i d.state.dealer bucket (history ++ [a]))) →
          (gameAfter e fuel t obs history a).Recalls i (Preflop position) ownChoices past' := by
        intro a past' ha hown hother
        cases hstep : (t.applyAction e (concretize a obs)).2 with
        | none =>
          rw [gameAfter, hstep]
          trivial
        | some t' =>
          rw [gameAfter_of_step hstep]
          have hconcrete := legal_concretize hvariant hobs ha
          apply ih (h.step hblind ⟨d, hd, hconcrete, hstep⟩)
          intro d' hd'
          have hcarries := turn_of_step (h d hd) hd hconcrete hstep hd'
          exact hrecalled.step hseats hcarries a hown hother
      rw [hgame] at hnamed ⊢
      rw [GameForm.Recalls]
      split
      case isTrue hseat =>
        obtain ⟨hole, hhole, hinfo⟩ := fromObservation_eq hobs history
        have hname : InfoSet.fromObservation obs history =
            preflopInfo n i d.state.dealer bucket history := by
          rw [hinfo, preflopInfo, if_pos hstreet, hstreet, hseat,
            hrecalled.bucket_eq hole (hseat ▸ hhole)]
        refine ⟨fun hK => ⟨?_, fun a ha => ?_⟩, fun hK a ha J hJ hJK => ?_⟩
        · rw [hname]
          exact (hrecalled.own hstreet hseat).symm
        · refine hbelow a _ ha (fun _ b => ?_) fun hne => absurd hseat hne
          rw [hname, hrecalled.own hstreet hseat]
          exact (ownChoices_append (preflopInfo n i d.state.dealer bucket history) a b).symm
        · -- a seat keeps its position
          refine hK ⟨hinfo ▸ hstreet, ?_⟩
          rw [hinfo, hseat, ← (hnamed J (GameForm.infosOf_next ha hJ)).position_eq]
          exact hJK.2
      case isFalse hseat =>
        exact fun a ha => hbelow a past ha (fun hsame => absurd hsame hseat)
          fun _ => hrecalled.other hstreet hseat a

end Game

/-! ## There are only so many info sets -/

/-- The info sets before the flop with histories of a bounded length. -/
theorem infos_finite (bound : ℕ) :
    {J : InfoSet | J.street = .preflop ∧ J.position < 2 ^ 8 ∧ J.bucket < 169 ∧
      J.history.length ≤ bound}.Finite := by
  have hhistories : {history : List AbstractAction | history.length ≤ bound}.Finite :=
    List.finite_length_le AbstractAction bound
  refine (((Set.finite_lt_nat (2 ^ 8)).prod ((Set.finite_lt_nat 169).prod hhistories)).image
    fun p => InfoSet.mk .preflop p.1 p.2.1 p.2.2).subset ?_
  rintro ⟨street, position, bucket, history⟩ ⟨rfl, hposition, hbucket, hhistory⟩
  exact ⟨⟨position, bucket, history⟩, ⟨hposition, hbucket, hhistory⟩, rfl⟩

end VibePoker.Trainer
