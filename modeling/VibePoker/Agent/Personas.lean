import Mathlib.Algebra.Order.Ring.Rat
import VibePoker.Abstraction.Preflop
import VibePoker.Core.HandRank
import VibePoker.Game.State

/-!
# Personas

Agents that act by the street, a bucket for the strength of their hand, and a random number.
Every branch of a persona ends in one of four helper functions. Random numbers and the
frequencies they are compared with are rationals in place of `f32`; the evaluator, which
comes from another crate, is an argument.

## Main definitions

* `evaluate` — the strength bucket of an observation
* `Policy` — the helper functions
* `Persona` — the five personas, with the branch that each takes
-/

namespace VibePoker.Agent

open VibePoker.Core VibePoker.Abstraction VibePoker.Game

/-! ## Strength -/

inductive Strength
  | trash
  | weak
  | medium
  | strong
  | premium
deriving DecidableEq, Repr

/-- The better of the best category so far and another one. -/
def betterCategory (best : Option HandCategory) (category : HandCategory) : HandCategory :=
  match best with
  | none => category
  | some b => if b.index < category.index then category else b

/-- Best five-card category out of five, six or seven cards. -/
def bestCategory (eval : RankEvaluator) (hole : Card × Card) (board : List Card) : HandCategory :=
  let all := hole.1 :: hole.2 :: board
  match board.length with
  | 3 => (eval.rank5 all).category
  | 4 =>
    let categories := (List.range 6).map fun skip => (eval.rank5 (all.eraseIdx skip)).category
    (categories.foldl (fun best category => some (betterCategory best category)) none).getD
      .highCard
  | 5 => (eval.rank7 all).category
  | _ => .highCard

/-- The strength bucket of an observation. -/
def evaluate (eval : RankEvaluator) (obs : Observation) : Strength :=
  if obs.street = .preflop then
    let index := (PreflopClass.fromHole obs.holeCards).index
    if index ≤ 10 then .premium
    else if index ≤ 30 then .strong
    else if index ≤ 70 then .medium
    else if index ≤ 130 then .weak
    else .trash
  else
    match bestCategory eval obs.holeCards obs.board with
    | .fullHouse | .fourOfAKind | .straightFlush => .premium
    | .flush | .straight => .strong
    | .threeOfAKind | .twoPair => .medium
    | .onePair => .weak
    | .highCard => .trash

/-! ## Helper functions -/

def foldOrCheck (obs : Observation) : Action :=
  if obs.legalActions.canCheck then .check else .fold

def callOrCheck (obs : Observation) : Action :=
  if obs.legalActions.canCheck then .check
  else if obs.legalActions.canCall then .call
  else .fold

def raiseOrCall (obs : Observation) : Action :=
  if obs.legalActions.canRaise then .raise obs.legalActions.minRaise else callOrCheck obs

def shoveOrCall (obs : Observation) : Action :=
  if 0 < obs.legalActions.allInAmount then .allIn else callOrCheck obs

/-- The helper function that a branch of a persona calls. -/
inductive Policy
  | foldOrCheck
  | callOrCheck
  | raiseOrCall
  | shoveOrCall
deriving DecidableEq, Repr

def Policy.act (obs : Observation) : Policy → Action
  | .foldOrCheck => Agent.foldOrCheck obs
  | .callOrCheck => Agent.callOrCheck obs
  | .raiseOrCall => Agent.raiseOrCall obs
  | .shoveOrCall => Agent.shoveOrCall obs

/-! ## The personas -/

/-- Tight and passive. -/
def Nit.policy (eval : RankEvaluator) (obs : Observation) (r : ℚ) : Policy :=
  let s := evaluate eval obs
  if obs.street = .preflop then
    match s with
    | .premium => if r < 7 / 10 then .raiseOrCall else .callOrCheck
    | .strong => .callOrCheck
    | _ => .foldOrCheck
  else
    match s with
    | .premium => if r < 1 / 2 then .raiseOrCall else .callOrCheck
    | .strong | .medium => .callOrCheck
    | _ => .foldOrCheck

/-- Tight and aggressive. Its own test for a free check preflop is that of `foldOrCheck`. -/
def Tag.policy (eval : RankEvaluator) (obs : Observation) (r : ℚ) : Policy :=
  let s := evaluate eval obs
  if obs.street = .preflop then
    match s with
    | .premium => .raiseOrCall
    | .strong => if r < 3 / 4 then .raiseOrCall else .callOrCheck
    | .medium => .foldOrCheck
    | _ => .foldOrCheck
  else
    match s with
    | .premium | .strong => .raiseOrCall
    | .medium => if r < 3 / 5 then .raiseOrCall else .callOrCheck
    | .weak => .callOrCheck
    | .trash => .foldOrCheck

/-- Loose and aggressive. -/
def Lag.policy (eval : RankEvaluator) (obs : Observation) (r : ℚ) : Policy :=
  let s := evaluate eval obs
  if obs.street = .preflop then
    match s with
    | .premium | .strong => .raiseOrCall
    | .medium => if r < 7 / 10 then .raiseOrCall else .callOrCheck
    | .weak => if r < 3 / 10 then .raiseOrCall else .foldOrCheck
    | .trash => .foldOrCheck
  else
    match s with
    | .premium | .strong => .raiseOrCall
    | .medium => if r < 3 / 5 then .raiseOrCall else .callOrCheck
    | .weak => if r < 7 / 20 then .raiseOrCall else .callOrCheck
    | .trash => if r < 3 / 20 then .raiseOrCall else .foldOrCheck

/-- Raises or shoves nearly everything. -/
def Maniac.policy (obs : Observation) (r : ℚ) : Policy :=
  if obs.street = .preflop ∧ 150 < (PreflopClass.fromHole obs.holeCards).index ∧ r < 2 / 5 then
    .foldOrCheck
  else if r < 1 / 20 then .shoveOrCall
  else if r < 17 / 20 then .raiseOrCall
  else .callOrCheck

/-- What the tilt-prone persona keeps between hands. -/
structure TiltProne where
  recentDelta : ℤ := 0
  tiltThreshold : ℤ := 30
deriving DecidableEq, Repr

namespace TiltProne

def tilted (tilt : TiltProne) : Bool := tilt.recentDelta ≤ -tilt.tiltThreshold

/-- Tight after wins, loose after losses. -/
def policy (tilt : TiltProne) (eval : RankEvaluator) (obs : Observation) (r : ℚ) : Policy :=
  let s := evaluate eval obs
  if obs.street = .preflop then
    match s with
    | .premium | .strong => .raiseOrCall
    | .medium =>
      let p : ℚ := if tilt.tilted then 17 / 20 else 3 / 10
      if r < p then .raiseOrCall else if tilt.tilted then .callOrCheck else .foldOrCheck
    | .weak => if tilt.tilted ∧ r < 1 / 2 then .raiseOrCall else .foldOrCheck
    | .trash => .foldOrCheck
  else
    let aggression : ℚ := if tilt.tilted then 4 / 5 else 1 / 2
    match s with
    | .premium | .strong => .raiseOrCall
    | .medium => if r < aggression then .raiseOrCall else .callOrCheck
    | .weak =>
      if tilt.tilted ∧ r < 2 / 5 then .raiseOrCall
      else if r < 1 / 2 then .callOrCheck
      else .foldOrCheck
    | .trash => if tilt.tilted ∧ r < 1 / 5 then .raiseOrCall else .foldOrCheck

/-- Mix in the worst result of the table; the division truncates. -/
def onHandEnd (tilt : TiltProne) (result : HandResult) : TiltProne :=
  match (result.seats.map SeatOutcome.chipDelta).min? with
  | none => tilt
  | some minDelta => { tilt with recentDelta := (tilt.recentDelta * 3 + minDelta).tdiv 4 }

end TiltProne

/-- A persona with its state. -/
inductive Persona
  | nit
  | tag
  | lag
  | maniac
  | tiltProne (tilt : TiltProne)
deriving DecidableEq, Repr

namespace Persona

/-- The helper function that a persona calls, given its random number. -/
def policy (eval : RankEvaluator) (obs : Observation) (r : ℚ) : Persona → Policy
  | .nit => Nit.policy eval obs r
  | .tag => Tag.policy eval obs r
  | .lag => Lag.policy eval obs r
  | .maniac => Maniac.policy obs r
  | .tiltProne tilt => tilt.policy eval obs r

def act (eval : RankEvaluator) (obs : Observation) (r : ℚ) (persona : Persona) : Action :=
  (persona.policy eval obs r).act obs

end Persona

end VibePoker.Agent
