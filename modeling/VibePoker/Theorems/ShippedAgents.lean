import VibePoker.Agent.Builtin
import VibePoker.Agent.Personas
import VibePoker.Theorems.PotRaise

/-!
# How the shipped agents play

What the agents of the repository answer is accepted by the engine, and a call is not a
fold, as long as the seat owes nothing or has more chips than it owes. Where the call takes
the whole stack, the engine offers all-in in its place: the calling station calls all the
same, and the personas fold.

## Main definitions

* `PlaysAsMeant` — legal answers, and no fold in place of a call

## Main results

* `playsAsMeant_iff` — so it is unless the call takes the whole stack
-/

namespace VibePoker.Agent

open VibePoker.Core VibePoker.Game VibePoker.Trainer

variable {n : ℕ} {e : Engine} {d : Decision n} {obs : Observation}

/-! ## The statement -/

/-- The probabilities at an info set are those of offered actions. They need not add up to one,
as rounded ones do not. -/
structure PlaysOffered (p : ActionProbs) (legal : LegalActions) : Prop where
  nonneg : ∀ a, 0 ≤ p.probs a
  pos : ∃ a, 0 < p.probs a
  offered : ∀ a, a ∉ legalAbstractActions legal → p.probs a = 0

/-- Every agent answers the observation with a legal action, whatever it draws, and an agent
that means to call or raise does not fold. -/
structure PlaysAsMeant (obs : Observation) : Prop where
  callingStation : obs.legalActions.isLegal (CallingStation.act obs) ∧
    CallingStation.act obs ≠ .fold
  randomAgent : 0 < (RandomAgent.choices obs.legalActions).length ∧
    ∀ index < (RandomAgent.choices obs.legalActions).length,
      ∃ action, RandomAgent.act obs index = some action ∧ obs.legalActions.isLegal action
  persona : ∀ (persona : Persona) (eval : RankEvaluator) (r : ℚ),
    obs.legalActions.isLegal (persona.act eval obs r) ∧
      (persona.policy eval obs r = .callOrCheck ∨ persona.policy eval obs r = .raiseOrCall →
        persona.act eval obs r ≠ .fold)
  adapter : ∀ (adapter : StrategyAdapter) (draw : ℚ), 0 ≤ draw → draw < 1 →
    PlaysOffered (adapter.strategy (adapter.infoSet obs) obs.legalActions) obs.legalActions →
      ∃ action, adapter.act obs draw = some action ∧ obs.legalActions.isLegal action

/-! ## What is always legal -/

/-- A raise that is offered can be the smallest one, as in no-limit betting. -/
def OffersMinRaise (obs : Observation) : Prop :=
  obs.legalActions.canRaise → obs.legalActions.minRaise ≤ obs.legalActions.maxRaise

theorem isLegal_minRaise (hraise : OffersMinRaise obs) (hcan : obs.legalActions.canRaise) :
    obs.legalActions.isLegal (.raise obs.legalActions.minRaise) := by
  simp [LegalActions.isLegal, hcan, hraise hcan]

theorem isLegal_callOrCheck (obs : Observation) : obs.legalActions.isLegal (callOrCheck obs) := by
  rw [callOrCheck]
  split
  case isTrue hcheck => exact hcheck
  case isFalse =>
    split
    case isTrue hcall => exact hcall
    case isFalse => rfl

/-- Whatever helper function a persona calls, its answer is legal. -/
theorem isLegal_policy (hraise : OffersMinRaise obs) (policy : Policy) :
    obs.legalActions.isLegal (policy.act obs) := by
  cases policy with
  | foldOrCheck =>
    rw [Policy.act, foldOrCheck]
    split
    case isTrue hcheck => exact hcheck
    case isFalse => rfl
  | callOrCheck => exact isLegal_callOrCheck obs
  | raiseOrCall =>
    rw [Policy.act, raiseOrCall]
    split
    case isTrue hcan => exact isLegal_minRaise hraise hcan
    case isFalse => exact isLegal_callOrCheck obs
  | shoveOrCall =>
    rw [Policy.act, shoveOrCall]
    split
    case isTrue hall => exact decide_eq_true hall
    case isFalse => exact isLegal_callOrCheck obs

/-- Every choice of the random agent is legal. -/
theorem isLegal_of_mem_choices (hraise : OffersMinRaise obs) {action : Action}
    (h : action ∈ RandomAgent.choices obs.legalActions) : obs.legalActions.isLegal action := by
  simp only [RandomAgent.choices, List.mem_append] at h
  rcases h with (((h | h) | h) | h) | h <;> split at h <;>
    simp only [List.mem_singleton, List.not_mem_nil] at h
  · rw [h]; rfl
  · rw [h]; assumption
  · rw [h]; assumption
  · rw [h]; exact isLegal_minRaise hraise ‹_›
  · rw [h]; exact decide_eq_true ‹_›

/-- There is a choice: a check or a fold. -/
theorem choices_pos (legal : LegalActions) : 0 < (RandomAgent.choices legal).length := by
  cases hcheck : legal.canCheck <;> simp [RandomAgent.choices, hcheck]

/-! ## What an adapter draws -/

/-- An action that is drawn has a probability, unless it is the first one. -/
theorem firstReaching_some {p : ActionProbs} {draw acc : ℚ} {actions : List AbstractAction}
    {a : AbstractAction} (h : p.firstReaching draw acc actions = some a) :
    (actions.head? = some a ∧ draw ≤ acc + p.probs a) ∨ 0 < p.probs a := by
  induction actions generalizing acc with
  | nil => cases h
  | cons b rest ih =>
    rw [ActionProbs.firstReaching] at h
    split at h
    case isTrue hle =>
      obtain rfl := Option.some.inj h
      exact Or.inl ⟨rfl, hle⟩
    case isFalse hlt =>
      rcases ih h with ⟨-, hle⟩ | hpos
      · -- the sum before it was below the draw
        by_contra hnot
        have hzero : p.probs a ≤ 0 := not_lt.mp fun hpos => hnot (Or.inr hpos)
        exact hlt (hle.trans (add_le_of_nonpos_right hzero))
      · exact Or.inr hpos

/-- An action that a sample returns has a probability, unless it is the first one. -/
theorem sample_some {p : ActionProbs} {draw : ℚ} {a : AbstractAction}
    (h : p.sample draw = some a) : a = .fold ∨ 0 < p.probs a := by
  rcases Option.or_eq_some_iff.mp h with hfirst | ⟨-, hlast⟩
  · rcases firstReaching_some hfirst with ⟨hhead, -⟩ | hpos
    · exact Or.inl (Option.some.inj hhead).symm
    · exact Or.inr hpos
  · have hpos := List.find?_some hlast
    exact Or.inr (of_decide_eq_true hpos)

/-- As long as an action has a probability, a sample returns one, whatever is drawn. -/
theorem sample_isSome {p : ActionProbs} (h : ∃ a, 0 < p.probs a) (draw : ℚ) :
    (p.sample draw).isSome := by
  obtain ⟨a, ha⟩ := h
  have hlast : (AbstractAction.all.reverse.find? fun a => 0 < p.probs a).isSome :=
    List.find?_isSome.mpr ⟨a, List.mem_reverse.mpr (AbstractAction.mem_all a), decide_eq_true ha⟩
  rw [ActionProbs.sample, Option.isSome_or, hlast, Bool.or_true]

/-- What an adapter draws is offered or is the fold, and stands for a legal action. -/
theorem exists_act (hraise : OffersMinRaise obs) {adapter : StrategyAdapter}
    (h : PlaysOffered (adapter.strategy (adapter.infoSet obs) obs.legalActions)
      obs.legalActions) (draw : ℚ) :
    ∃ action, adapter.act obs draw = some action ∧ obs.legalActions.isLegal action := by
  set p := adapter.strategy (adapter.infoSet obs) obs.legalActions with hp
  obtain ⟨a, ha⟩ := Option.isSome_iff_exists.mp (sample_isSome h.pos draw)
  have hact : adapter.act obs draw = some (concretize a obs) := by
    rw [StrategyAdapter.act, ← hp, ha]
    rfl
  refine ⟨_, hact, ?_⟩
  by_cases hoffered : a ∈ legalAbstractActions obs.legalActions
  · exact concretize_isLegal hraise hoffered
  · rcases sample_some ha with rfl | hpos
    · rw [concretize]
      split
      case isTrue hcheck => exact hcheck
      case isFalse => rfl
    · exact absurd (h.offered a hoffered) hpos.ne'

/-! ## Calls that take the whole stack -/

/-- The seat owes nothing, or has more chips than it owes. -/
def CallLeavesChips (d : Decision n) : Prop :=
  d.owed = 0 ∨ d.owed < (d.state.players d.seat).stack

instance (d : Decision n) : Decidable (CallLeavesChips d) := inferInstanceAs (Decidable (_ ∨ _))

/-- Then, and only then, the engine offers a check or a call. -/
theorem callLeavesChips_iff (h : d.observation e = some obs) :
    CallLeavesChips d ↔ obs.legalActions.canCheck ∨ obs.legalActions.canCall := by
  rw [Decision.observation_legalActions h, CallLeavesChips, Decision.owed]
  simp only [Engine.computeLegalActions, decide_eq_true_eq]
  omega

theorem callOrCheck_ne_fold (h : obs.legalActions.canCheck ∨ obs.legalActions.canCall) :
    callOrCheck obs ≠ .fold := by
  rw [callOrCheck]
  split
  case isTrue => exact nofun
  case isFalse hcheck =>
    rw [if_pos (h.resolve_left hcheck)]
    exact nofun

/-- At every decision of a no-limit hand, with or without antes, the agents answer legally
and do not fold in place of a call, if and only if the seat owes nothing or has more chips
than it owes. -/
theorem playsAsMeant_iff {handId deckSeed : ℕ} {order : Fin 52 → Card}
    {startingStacks : List ℕ} {dealer : ℕ} {seatKinds : Option (List SeatKind)}
    {answers : List Action} {d : Decision startingStacks.length}
    (hvariant : e.rules.variant = .noLimit)
    (h : (d, obs) ∈ promptsOf
      (runHand e handId deckSeed order startingStacks dealer seatKinds answers).1) :
    PlaysAsMeant obs ↔ CallLeavesChips d := by
  obtain ⟨-, -, -, -, -, -, hobs⟩ := asked_of_prompt h
  have hraise : OffersMinRaise obs := fun hopen => ((noLimit_bounds hobs hvariant).2.2 hopen).le
  rw [callLeavesChips_iff hobs]
  constructor
  · intro hmeant
    -- the calling station alone shows the condition, as it has nothing but checks and calls
    have hstation := hmeant.callingStation.1
    rw [CallingStation.act] at hstation
    split at hstation
    case isTrue hcheck => exact Or.inl hcheck
    case isFalse => exact Or.inr hstation
  · intro hopen
    refine ⟨?_, ⟨choices_pos _, fun index hindex => ?_⟩, fun persona eval r => ⟨?_, ?_⟩,
      fun adapter draw _ _ hplays => exists_act hraise hplays draw⟩
    · rw [CallingStation.act]
      split
      case isTrue hcheck => exact ⟨hcheck, nofun⟩
      case isFalse hcheck => exact ⟨hopen.resolve_left hcheck, nofun⟩
    · exact ⟨_, List.getElem?_eq_getElem hindex,
        isLegal_of_mem_choices hraise (List.getElem_mem hindex)⟩
    · exact isLegal_policy hraise _
    · rintro (hpolicy | hpolicy)
      · rw [Persona.act, hpolicy]
        exact callOrCheck_ne_fold hopen
      · rw [Persona.act, hpolicy, Policy.act, raiseOrCall]
        split
        case isTrue => exact nofun
        case isFalse => exact callOrCheck_ne_fold hopen

/-! ## A short stack against a shove -/

/-- The blinds are asked first with a hundred chips each. -/
theorem playsAsMeant_opening :
    ∃ p ∈ promptsOf (headsUpHand []).1, PlaysAsMeant p.2 := by
  have hasked : (promptsOf (headsUpHand []).1).any (fun p => decide (CallLeavesChips p.1)) =
      true := by decide +kernel
  obtain ⟨p, hp, hleaves⟩ := List.any_eq_true.mp hasked
  exact ⟨p, hp, (playsAsMeant_iff rfl hp).mpr (of_decide_eq_true hleaves)⟩

/-- After an all-in of the small blind the big blind owes its whole stack: the calling
station answers with a call that is not offered, and a persona that means to call folds. -/
theorem short_call_folds :
    ∃ p ∈ promptsOf (headsUpHand [.allIn]).1, callOrCheck p.2 = .fold ∧
      p.2.legalActions.isLegal (CallingStation.act p.2) = false ∧ ¬ PlaysAsMeant p.2 := by
  have hasked : (promptsOf (headsUpHand [.allIn]).1).any (fun p => decide
      (callOrCheck p.2 = .fold ∧ p.2.legalActions.isLegal (CallingStation.act p.2) = false)) =
        true := by decide +kernel
  obtain ⟨p, hp, hshort⟩ := List.any_eq_true.mp hasked
  obtain ⟨hfold, hillegal⟩ := of_decide_eq_true hshort
  refine ⟨p, hp, hfold, hillegal, fun hmeant => ?_⟩
  rw [hmeant.callingStation.1] at hillegal
  cases hillegal

end VibePoker.Agent
