import VibePoker.Game.State

/-!
# Built-in agents

The random agent and the calling station. What the random generator gives is an argument.
-/

namespace VibePoker.Agent

open VibePoker.Game

namespace RandomAgent

/-- The actions that the random agent chooses from: no fold where a check is free, and the
smallest raise only. -/
def choices (legal : LegalActions) : List Action :=
  (if legal.canCheck then [] else [.fold]) ++
    (if legal.canCheck then [.check] else []) ++
      (if legal.canCall then [.call] else []) ++
        (if legal.canRaise then [.raise legal.minRaise] else []) ++
          if 0 < legal.allInAmount then [.allIn] else []

/-- The choice with the number `index`, which `gen_range` draws below the number of choices. -/
def act (obs : Observation) (index : ℕ) : Option Action := (choices obs.legalActions)[index]?

end RandomAgent

/-- Check if it is free, call otherwise. -/
def CallingStation.act (obs : Observation) : Action :=
  if obs.legalActions.canCheck then .check else .call

end VibePoker.Agent
