import Mathlib.Algebra.Order.Ring.Rat
import VibePoker.Game.Checked
import VibePoker.Trainer.InfoSet

/-!
# Strategies and their adapter

A strategy gives each abstract action a probability at an info set. Its adapter plays it in
the engine: it keeps the abstract history of the hand from the actions it is notified of,
looks the strategy up under the info set, draws an abstract action and turns it into an action
of the engine.

Probabilities are rational numbers in place of `f32`, and the random draw is an argument.

## Main definitions

* `legalAbstractActions`, `concretize` — abstract actions in terms of the engine's
* `concretizeChecked` — `concretize` with overflow checks
* `ActionProbs.sample` — drawing an abstract action
* `StrategyAdapter` — the agent that plays a strategy
-/

namespace VibePoker.Trainer

open VibePoker.CS VibePoker.Game

/-! ## Distributions over abstract actions -/

/-- A probability for each abstract action. -/
structure ActionProbs where
  probs : AbstractAction → ℚ

namespace ActionProbs

/-- Uniform over the legal actions. -/
def uniformOver (legal : List AbstractAction) : ActionProbs :=
  { probs := fun a => if a ∈ legal then 1 / legal.length else 0 }

/-- The first action at which the probabilities add up to `draw`. -/
def firstReaching (p : ActionProbs) (draw : ℚ) : ℚ → List AbstractAction → Option AbstractAction
  | _, [] => none
  | acc, a :: rest =>
    if draw ≤ acc + p.probs a then some a else p.firstReaching draw (acc + p.probs a) rest

/-- The action that a draw from `[0, 1)` gives; `none` is the panic without a legal action. -/
def sample (p : ActionProbs) (draw : ℚ) : Option AbstractAction :=
  -- the sum may stay below the draw; then the last action that is likely at all
  (p.firstReaching draw 0 AbstractAction.all).or
    (AbstractAction.all.reverse.find? fun a => 0 < p.probs a)

end ActionProbs

/-- A policy: the action probabilities at an info set, given the engine's legal actions. -/
abbrev StrategyAgent := InfoSet → LegalActions → ActionProbs

/-! ## Abstract and concrete actions -/

/-- The abstract actions that are legal. A free check is not folded. -/
def legalAbstractActions (legal : LegalActions) : List AbstractAction :=
  (if legal.canCheck then [] else [.fold]) ++
    (if legal.canCheck || legal.canCall then [.call] else []) ++
      (if legal.canRaise then [.raise] else []) ++
        if 0 < legal.allInAmount then [.allIn] else []

/-- The street total that an abstract raise asks for, in exact numbers; `potTargetChecked` is
what the source computes. -/
def potTarget (obs : Observation) : ℕ :=
  let streetBets := (obs.players.map PublicPlayerState.betThisStreet).sum
  let potAfterCall := obs.pot.total + streetBets
  max (min (obs.legalActions.minRaise + potAfterCall) obs.legalActions.maxRaise)
    obs.legalActions.minRaise

/-- The action of the engine for an abstract action. One that is not legal becomes a check or
a call. -/
def concretize (action : AbstractAction) (obs : Observation) : Action :=
  let legal := obs.legalActions
  match action with
  | .fold => if legal.canCheck then .check else .fold
  | .call => if legal.canCheck then .check else .call
  | .raise =>
    if legal.canRaise then .raise (potTarget obs)
    else if legal.canCheck then .check else .call
  | .allIn =>
    if 0 < legal.allInAmount then .allIn
    else if legal.canCheck then .check else .call

/-- `potTarget` with checks. The sums of the pot can overflow, and what is added to the minimum
raise saturates. -/
def potTargetChecked (obs : Observation) : Option ℕ := do
  let streetBets ← sumWord 32 (obs.players.map PublicPlayerState.betThisStreet)
  let pot ← obs.pot.totalChecked
  let potAfterCall ← addWord 32 pot streetBets
  let target := min (obs.legalActions.minRaise + potAfterCall) (2 ^ 32 - 1)
  some (max (min target obs.legalActions.maxRaise) obs.legalActions.minRaise)

/-- `concretize` with checks. -/
def concretizeChecked (action : AbstractAction) (obs : Observation) : Option Action :=
  match action with
  | .raise =>
    if obs.legalActions.canRaise then (potTargetChecked obs).map .raise
    else some (concretize .raise obs)
  | action => some (concretize action obs)

/-! ## The adapter -/

/-- The agent that plays a strategy, with the abstract history of the current hand. -/
structure StrategyAdapter where
  strategy : StrategyAgent
  history : List AbstractAction

namespace StrategyAdapter

def new (strategy : StrategyAgent) : StrategyAdapter := { strategy := strategy, history := [] }

def onHandStart (adapter : StrategyAdapter) : StrategyAdapter := { adapter with history := [] }

def onEvent (adapter : StrategyAdapter) : EngineEvent → StrategyAdapter
  | .actionTaken _ action _ =>
    -- what was applied, which need not be what the strategy chose
    { adapter with history := adapter.history ++ [AbstractAction.fromAction action] }
  | _ => adapter

/-- The key under which the adapter looks its strategy up. -/
def infoSet (adapter : StrategyAdapter) (obs : Observation) : InfoSet :=
  .fromObservation obs adapter.history

/-- The answer to an observation with a random draw. -/
def act (adapter : StrategyAdapter) (obs : Observation) (draw : ℚ) : Option Action := do
  let probs := adapter.strategy (adapter.infoSet obs) obs.legalActions
  let abstractAction ← probs.sample draw
  some (concretize abstractAction obs)

end StrategyAdapter

end VibePoker.Trainer
