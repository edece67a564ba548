import VibePoker.Abstraction.Preflop
import VibePoker.Game.State

/-!
# Abstract actions and info sets

The trainer sees four actions, and knows a decision by its street, the position of the seat
relative to the dealer, the class of its hole cards and the abstract actions before it.
-/

namespace VibePoker.Trainer

open VibePoker.Core VibePoker.Abstraction VibePoker.Game

/-! ## Abstract actions -/

inductive AbstractAction
  | fold
  | call
  | raise
  | allIn
deriving DecidableEq, Repr

namespace AbstractAction

/-- All abstract actions, in the order of their indices. -/
def all : List AbstractAction := [.fold, .call, .raise, .allIn]

/-- The bucket of an action of the engine. -/
def fromAction : Action → AbstractAction
  | .fold => .fold
  | .check | .call => .call
  | .raise _ => .raise
  | .allIn => .allIn

@[simp] theorem mem_all (a : AbstractAction) : a ∈ all := by
  cases a <;> decide

end AbstractAction

/-! ## Info sets -/

/-- What identifies a decision point for regrets and strategies. -/
structure InfoSet where
  street : Street
  position : ℕ
  bucket : ℕ
  history : List AbstractAction
deriving DecidableEq, Repr

/-- Seats from the dealer on, as a `u8`. -/
def relativePosition (seat dealer n : ℕ) : ℕ := (seat + n - dealer) % n % 2 ^ 8

/-- The info set of an observation after the given abstract actions. Postflop there is one
bucket. -/
def InfoSet.fromObservation (obs : Observation) (history : List AbstractAction) : InfoSet :=
  { street := obs.street
    position := relativePosition obs.position obs.dealer obs.players.length
    bucket := if obs.street = .preflop then (PreflopClass.fromHole obs.holeCards).index else 0
    history := history }

@[simp] theorem InfoSet.fromObservation_history (obs : Observation)
    (history : List AbstractAction) : (fromObservation obs history).history = history := rfl

end VibePoker.Trainer
