import VibePoker.Game.Checks
import VibePoker.Game.Heard
import VibePoker.Game.Prompts
import VibePoker.Game.SeatNumbers
import VibePoker.Trainer.Strategy

/-!
# Paths of the traversal

The traversal goes down the tree of a hand by abstract actions, which it records as it chose
them. An adapter in the engine records the actions as they were applied.

## Main definitions

* `descend` — the tree after an abstract action
* `StrategyAdapter.after` — an adapter that has heard a run
* `AskedAfter` — a hand in which the seats made given abstract choices
* `Survives` — the choices that the engine applies under the same name

## Main results

* `fromAction_normalizeAction_eq_iff` — a choice is recorded alike on both sides exactly when
  it survives
* `play_concretes` — a path of the traversal as a run of the stepper
-/

namespace VibePoker.Trainer

open VibePoker.CS VibePoker.Game

variable {n : ℕ} {e : Engine}

/-! ## Going down -/

/-- The tree after an abstract action. -/
def descend (e : Engine) (t : GameTree n) (a : AbstractAction) : Option (GameTree n) := do
  let obs ← t.observationOwned e
  (t.applyAction e (concretize a obs)).2

/-- The answers that the abstract actions of a path stand for. -/
def concretes (e : Engine) : GameTree n → List AbstractAction → List Action
  | _, [] => []
  | t, a :: choices =>
    match t.observationOwned e with
    | none => []
    | some obs =>
      concretize a obs ::
        match (t.applyAction e (concretize a obs)).2 with
        | none => []
        | some t' => concretes e t' choices

theorem observationOwned_eq_some_iff {t : GameTree n} {obs : Observation} :
    t.observationOwned e = some obs ↔
      ∃ d, t.decision? = some d ∧ d.observation e = some obs := by
  cases hd : t.decision? with
  | none =>
    obtain ⟨chipDeltas, hphase⟩ := GameTree.decision?_eq_none_iff.mp hd
    rw [GameTree.observationOwned, hphase]
    simp
  | some d =>
    rw [GameTree.observationOwned_of_decision hd]
    simp

theorem descend_eq_some_iff {t t' : GameTree n} {a : AbstractAction} :
    descend e t a = some t' ↔ ∃ d obs, t.decision? = some d ∧ d.observation e = some obs ∧
      (t.applyAction e (concretize a obs)).2 = some t' := by
  rw [descend, Option.bind_eq_bind, Option.bind_eq_some_iff]
  simp only [observationOwned_eq_some_iff]
  constructor
  · rintro ⟨obs, ⟨d, hd, hobs⟩, hstep⟩
    exact ⟨d, obs, hd, hobs, hstep⟩
  · rintro ⟨d, obs, hd, hobs, hstep⟩
    exact ⟨obs, ⟨d, hd, hobs⟩, hstep⟩

/-- One step of a path. -/
def Descends (e : Engine) (t : GameTree n) (a : AbstractAction) (t' : GameTree n) : Prop :=
  descend e t a = some t'

/-- A path that leads to a decision starts at one. -/
theorem decision_of_descends {t t' : GameTree n} {choices : List AbstractAction}
    (hpath : Trace (Descends e) t choices t') {d : Decision n} (hd : t'.decision? = some d) :
    ∃ d, t.decision? = some d := by
  cases hpath with
  | nil => exact ⟨d, hd⟩
  | cons head tail =>
    obtain ⟨d, obs, hd, -⟩ := descend_eq_some_iff.mp head
    exact ⟨d, hd⟩

theorem concretes_cons {t t' : GameTree n} {d : Decision n} {obs : Observation}
    {a : AbstractAction} (hd : t.decision? = some d) (hobs : d.observation e = some obs)
    (hstep : (t.applyAction e (concretize a obs)).2 = some t') (choices : List AbstractAction) :
    concretes e t (a :: choices) = concretize a obs :: concretes e t' choices := by
  rw [concretes, GameTree.observationOwned_of_decision hd, hobs]
  simp only [hstep]

/-! ## Choices and what becomes of them -/

/-- The street total of the acting seat with all its chips in. -/
def allInTotal (obs : Observation) : ℕ :=
  obs.legalActions.allInAmount +
    (obs.players.map PublicPlayerState.betThisStreet).getD obs.position 0

/-- The engine applies the choice under its name: no free check is folded, and a raise is open
and leaves chips behind. -/
def Survives (obs : Observation) : AbstractAction → Prop
  | .fold => ¬ obs.legalActions.canCheck
  | .raise => obs.legalActions.canRaise ∧ potTarget obs < allInTotal obs
  | .call | .allIn => True

instance (obs : Observation) : DecidablePred (Survives obs)
  | .fold => inferInstanceAs (Decidable (¬ _))
  | .raise => inferInstanceAs (Decidable (_ ∧ _))
  | .call | .allIn => inferInstanceAs (Decidable True)

theorem minRaise_le_potTarget (obs : Observation) :
    obs.legalActions.minRaise ≤ potTarget obs := le_max_right _ _

theorem mem_legalAbstractActions_iff {legal : LegalActions} {a : AbstractAction} :
    a ∈ legalAbstractActions legal ↔
      match a with
      | .fold => legal.canCheck = false
      | .call => legal.canCheck || legal.canCall
      | .raise => legal.canRaise
      | .allIn => 0 < legal.allInAmount := by
  rw [legalAbstractActions]
  cases a <;> cases legal.canCheck <;> cases legal.canCall <;> cases legal.canRaise <;>
    by_cases hall : 0 < legal.allInAmount <;> simp [hall]

/-- Where the pot and the maximum raise fit their words, the checks of `concretize` succeed. -/
theorem concretizeChecked_eq {obs : Observation}
    (hpot : obs.pot.total + (obs.players.map PublicPlayerState.betThisStreet).sum < 2 ^ 32)
    (hmax : obs.legalActions.maxRaise < 2 ^ 32) (a : AbstractAction) :
    concretizeChecked a obs = some (concretize a obs) := by
  cases a with
  | raise =>
    rw [concretizeChecked]
    by_cases hopen : obs.legalActions.canRaise
    case neg => rw [if_neg hopen]
    have htarget : potTargetChecked obs = some (potTarget obs) := by
      simp only [potTargetChecked, potTarget, Option.bind_eq_bind]
      rw [sumWord_of_lt (by omega), Option.bind_some, totalChecked_of_lt (by omega),
        Option.bind_some, addWord_of_lt hpot, Option.bind_some]
      -- the addition saturates above the maximum raise
      congr 2
      omega
    rw [if_pos hopen, htarget, concretize, if_pos hopen]
    rfl
  | _ => rfl

/-- What is offered is legal, where an open raise can be made at all. -/
theorem concretize_isLegal {obs : Observation} (hraise : obs.legalActions.canRaise →
      obs.legalActions.minRaise ≤ obs.legalActions.maxRaise) {a : AbstractAction}
    (ha : a ∈ legalAbstractActions obs.legalActions) :
    obs.legalActions.isLegal (concretize a obs) := by
  have hoffered := mem_legalAbstractActions_iff.mp ha
  cases a with
  | fold => rw [concretize, hoffered]; rfl
  | call =>
    rw [concretize]
    cases hcheck : obs.legalActions.canCheck with
    | true => exact hcheck
    | false => simpa [LegalActions.isLegal, hcheck] using hoffered
  | raise =>
    rw [concretize, if_pos hoffered]
    have hle := hraise hoffered
    have hmax : potTarget obs ≤ obs.legalActions.maxRaise := max_le (min_le_right _ _) hle
    simp [LegalActions.isLegal, hoffered, minRaise_le_potTarget, hmax]
  | allIn =>
    rw [concretize, if_pos hoffered]
    simpa [LegalActions.isLegal] using hoffered

section Decision

variable {d : Decision n} {obs : Observation}

theorem allInTotal_eq (h : d.observation e = some obs) :
    allInTotal obs =
      (d.state.players d.seat).stack + (d.state.players d.seat).betThisStreet := by
  obtain ⟨hole, -, rfl⟩ := Option.map_eq_some_iff.mp h
  rw [allInTotal, publicPlayers, List.map_ofFn, List.getD_eq_getElem?_getD,
    List.getElem?_ofFn, dif_pos d.seat.isLt]
  rfl

/-- A raise that is open is applied as a raise exactly when it leaves chips behind. -/
theorem normalizeAction_potTarget (h : d.observation e = some obs)
    (hstack : 0 < (d.state.players d.seat).stack) :
    Engine.normalizeAction d.state d.seat (.raise (potTarget obs)) =
      if potTarget obs < allInTotal obs then .raise (potTarget obs) else .allIn := by
  have hmin : d.state.currentBet + d.state.minRaiseIncrement ≤ potTarget obs := by
    have := minRaise_le_potTarget obs
    rwa [Decision.observation_legalActions h] at this
  have htotal := allInTotal_eq h
  rw [Engine.normalizeAction]
  by_cases hall : potTarget obs < allInTotal obs
  · rw [if_pos hall]
    dsimp only
    rw [if_neg (by omega), if_neg hmin.not_gt]
  · rw [if_neg hall, if_pos (by omega)]

/-- What the engine applies has the name of the choice exactly when the choice survives. -/
theorem fromAction_normalizeAction_eq_iff (h : d.observation e = some obs)
    (hstack : 0 < (d.state.players d.seat).stack) (a : AbstractAction) :
    AbstractAction.fromAction (Engine.normalizeAction d.state d.seat (concretize a obs)) = a ↔
      Survives obs a := by
  cases a with
  | fold =>
    rw [concretize, Survives]
    cases obs.legalActions.canCheck <;> simp [Engine.normalizeAction, AbstractAction.fromAction]
  | call =>
    rw [concretize, Survives]
    cases obs.legalActions.canCheck <;> simp [Engine.normalizeAction, AbstractAction.fromAction]
  | raise =>
    rw [concretize, Survives]
    cases obs.legalActions.canRaise with
    | false =>
      cases obs.legalActions.canCheck <;>
        simp [Engine.normalizeAction, AbstractAction.fromAction]
    | true =>
      rw [if_pos rfl, normalizeAction_potTarget h hstack]
      by_cases hall : potTarget obs < allInTotal obs
      · simp [hall, AbstractAction.fromAction]
      · simp [hall, AbstractAction.fromAction]
  | allIn =>
    have hamount : 0 < obs.legalActions.allInAmount := by
      rw [Decision.observation_legalActions h]
      exact hstack
    rw [concretize, if_pos hamount, Survives]
    exact ⟨fun _ => trivial, fun _ => rfl⟩

end Decision

/-! ## What an adapter has heard -/

/-- The adapter after a part of a hand: it was told of the start, then of the events. -/
def StrategyAdapter.after (adapter : StrategyAdapter) (outputs : List (Output n)) :
    StrategyAdapter :=
  (outputs.filterMap Output.notified?).foldl StrategyAdapter.onEvent adapter.onHandStart

/-- The names of the actions that a run reports. -/
def actionNames (actions : List (ℕ × Action × ℕ)) : List AbstractAction :=
  actions.map fun taken => AbstractAction.fromAction taken.2.1

theorem foldl_onEvent_history (adapter : StrategyAdapter) (events : List EngineEvent) :
    (events.foldl StrategyAdapter.onEvent adapter).history =
      adapter.history ++ actionNames (events.filterMap EngineEvent.action?) := by
  induction events generalizing adapter with
  | nil => exact (List.append_nil _).symm
  | cons event events ih =>
    rw [List.foldl_cons, ih]
    cases event with
    | actionTaken seat action potTotal => exact List.append_assoc _ _ _
    | _ => rfl

theorem StrategyAdapter.after_history (adapter : StrategyAdapter) (outputs : List (Output n)) :
    (adapter.after outputs).history = actionNames (heardActions outputs) := by
  rw [after, foldl_onEvent_history, onHandStart, List.nil_append, heardActions]

/-! ## A path as a run -/

/-- In a hand the seats made the abstract choices, each at its prompt, and `obs` is asked
next; `before` is what happened until then. -/
def AskedAfter (hand : List Action → List (Output n) × HandOutcome n)
    (choices : List AbstractAction) (before : List (Output n)) (obs : Observation) : Prop :=
  (promptsOf before).length = choices.length ∧ ∃ d after,
    (hand (choices.zipWith concretize ((promptsOf before).map Prod.snd))).1 =
      before ++ .prompt d obs :: after

/-- A step of a path whose choice survives. -/
def DescendsKept (e : Engine) (t : GameTree n) (a : AbstractAction) (t' : GameTree n) : Prop :=
  Descends e t a t' ∧ ∃ obs, t.observationOwned e = some obs ∧ Survives obs a

theorem descendsKept_iff {t t' : GameTree n} {a : AbstractAction} {d : Decision n}
    {obs : Observation} (hd : t.decision? = some d) (hobs : d.observation e = some obs)
    (hstep : Descends e t a t') : DescendsKept e t a t' ↔ Survives obs a := by
  have hasked := (GameTree.observationOwned_of_decision hd).trans hobs
  constructor
  · rintro ⟨-, obs', hobs', hsurvives⟩
    obtain rfl := Option.some.inj (hobs'.symm.trans hasked)
    exact hsurvives
  · exact fun hsurvives => ⟨hstep, obs, hasked, hsurvives⟩

/-- A path leads the stepper to its last tree, which is asked next. The actions are reported
under the names of the choices exactly when all choices survive. -/
theorem play_concretes {t t' : GameTree n} {choices : List AbstractAction}
    (hpath : Trace (Descends e) t choices t')
    (hstack : ∀ used u d, Trace (Descends e) t used u → u.decision? = some d →
      0 < (d.state.players d.seat).stack)
    {d : Decision n} {obs : Observation} (hd : t'.decision? = some d)
    (hobs : d.observation e = some obs) :
    ∃ before, t.play e (concretes e t choices) = (before ++ [.prompt d obs], .waiting) ∧
      (promptsOf before).length = choices.length ∧
      choices.zipWith concretize ((promptsOf before).map Prod.snd) = concretes e t choices ∧
      (actionNames (reportedActions before) = choices ↔
        Trace (DescendsKept e) t choices t') := by
  induction hpath with
  | nil t =>
    exact ⟨[], GameTree.play_nil hd hobs, rfl, rfl, fun _ => .nil t, fun _ => rfl⟩
  | @cons t u t' a choices head tail ih =>
    obtain ⟨d₀, obs₀, hd₀, hobs₀, hstep⟩ := descend_eq_some_iff.mp head
    obtain ⟨before, hplay, hlength, hzip, hnames⟩ :=
      ih (fun used v d htrace => hstack (a :: used) v d (.cons head htrace)) hd
    have hreported := GameTree.reportedActions_applyAction (e := e) hd₀ (concretize a obs₀)
    have hname := fromAction_normalizeAction_eq_iff hobs₀ (hstack [] t d₀ (.nil t) hd₀) a
    refine ⟨.prompt d₀ obs₀ :: ((t.applyAction e (concretize a obs₀)).1.map .event ++ before),
      ?_, ?_, ?_, ?_⟩
    · rw [concretes_cons hd₀ hobs₀ hstep, GameTree.play_cons hd₀ hobs₀, GameTree.playFrom, hstep]
      simp only [hplay, List.cons_append, List.append_assoc]
    · simp [hlength]
    · rw [concretes_cons hd₀ hobs₀ hstep, ← hzip]
      simp
    · have hsplit : reportedActions (.prompt d₀ obs₀ ::
          ((t.applyAction e (concretize a obs₀)).1.map .event ++ before)) =
          reportedActions ((t.applyAction e (concretize a obs₀)).1.map .event : List (Output n)) ++
            reportedActions before := reportedActions_append _ before
      rw [hsplit, hreported, actionNames, List.singleton_append, List.map_cons, List.cons.injEq,
        hname]
      constructor
      · rintro ⟨hsurvives, hrest⟩
        exact .cons ((descendsKept_iff hd₀ hobs₀ head).mpr hsurvives) (hnames.mp hrest)
      · intro htrace
        cases htrace with
        | @cons _ v _ _ _ hkept hrest =>
          obtain rfl : u = v := Option.some.inj (head.symm.trans hkept.1)
          exact ⟨(descendsKept_iff hd₀ hobs₀ head).mp hkept, hnames.mpr hrest⟩

/-- Answers that stand for abstract choices at their prompts are those of the path. -/
theorem eq_concretes {t : GameTree n} {choices : List AbstractAction} {answers : List Action}
    {seen later : List Observation} {obs : Observation}
    (hseen : (promptsOf (t.play e answers).1).map Prod.snd = seen ++ obs :: later)
    (hlength : seen.length = choices.length)
    (hanswers : answers = choices.zipWith concretize seen) :
    answers = concretes e t choices := by
  induction choices generalizing t answers seen with
  | nil => rw [hanswers, List.zipWith_nil_left, concretes]
  | cons a choices ih =>
    cases seen with
    | nil => cases hlength
    | cons first seen =>
      rw [List.zipWith_cons_cons] at hanswers
      subst hanswers
      cases hd : t.decision? with
      | none =>
        obtain ⟨chipDeltas, hphase⟩ := GameTree.decision?_eq_none_iff.mp hd
        simp [GameTree.play_of_terminal hphase] at hseen
      | some d =>
        cases hobs : d.observation e with
        | none => simp [GameTree.play_of_blind hd hobs] at hseen
        | some obs₀ =>
          rw [GameTree.play_cons hd hobs, promptsOf_cons_prompt, List.map_cons, List.cons_append,
            List.cons.injEq] at hseen
          obtain ⟨rfl, hseen⟩ := hseen
          cases hstep : (t.applyAction e (concretize a obs₀)).2 with
          | none => simp [GameTree.playFrom, hstep] at hseen
          | some t' =>
            rw [concretes_cons hd hobs hstep]
            have hrest : (promptsOf (t'.play e (choices.zipWith concretize seen)).1).map
                Prod.snd = seen ++ obs :: later := by
              simpa [GameTree.playFrom, hstep] using hseen
            exact congrArg (_ :: ·) (ih hrest (Nat.succ.inj hlength) rfl)

end VibePoker.Trainer
