import VibePoker.Game.State

/-!
# Statistics of a simulation

A sink that counts, for each seat, what happens over all hands. The flags of the hand in
progress are reset when a hand starts and counted when it ends. The counters are exact
numbers; the percentages of a report are left out.
-/

namespace VibePoker.Stats

open VibePoker.Game

variable {n : ℕ}

structure SeatStats where
  handsDealt : ℕ := 0
  handsWon : ℕ := 0
  chipDeltaTotal : ℤ := 0
  vpipHands : ℕ := 0
  pfrHands : ℕ := 0
  aggressiveActions : ℕ := 0
  passiveActions : ℕ := 0
  totalPot : ℕ := 0
deriving DecidableEq, Repr

/-- The counters of `n` seats, and the hand in progress. -/
structure StatsSink (n : ℕ) where
  seats : Fin n → SeatStats
  currentStreet : Street
  vpipThisHand : Fin n → Bool
  pfrThisHand : Fin n → Bool

namespace StatsSink

def new (n : ℕ) : StatsSink n where
  seats _ := {}
  currentStreet := .preflop
  vpipThisHand _ := false
  pfrThisHand _ := false

/-- Count an action of a seat. -/
def onAction (sink : StatsSink n) (seat : Fin n) (action : Action) : StatsSink n :=
  let stats := sink.seats seat
  match action with
  -- an all-in counts as a raise, also one that only calls
  | .raise _ | .allIn =>
    { sink with
      seats := Function.update sink.seats seat
        { stats with aggressiveActions := stats.aggressiveActions + 1 }
      vpipThisHand := if sink.currentStreet = .preflop then
          Function.update sink.vpipThisHand seat true
        else sink.vpipThisHand
      pfrThisHand := if sink.currentStreet = .preflop then
          Function.update sink.pfrThisHand seat true
        else sink.pfrThisHand }
  | .call =>
    { sink with
      seats := Function.update sink.seats seat
        { stats with passiveActions := stats.passiveActions + 1 }
      vpipThisHand := if sink.currentStreet = .preflop then
          Function.update sink.vpipThisHand seat true
        else sink.vpipThisHand }
  | .fold | .check => sink

/-- The chips won in a hand, over all seats. -/
def potWon (result : HandResult) : ℕ :=
  ((result.seats.filter fun o => o.chipDelta > 0).map fun o => o.chipDelta.toNat).sum

/-- The counters of a seat after a hand that ends with `outcome` for it. -/
def credit (stats : SeatStats) (outcome : SeatOutcome) (vpip pfr : Bool) (pot : ℕ) : SeatStats :=
  { stats with
    handsDealt := stats.handsDealt + 1
    chipDeltaTotal := stats.chipDeltaTotal + outcome.chipDelta
    handsWon := if outcome.chipDelta > 0 then stats.handsWon + 1 else stats.handsWon
    vpipHands := if vpip then stats.vpipHands + 1 else stats.vpipHands
    pfrHands := if pfr then stats.pfrHands + 1 else stats.pfrHands
    totalPot := stats.totalPot + pot }

/-- Count the end of a hand for one seat; seats that sat out are invisible. -/
def onOutcome (pot : ℕ) (sink : StatsSink n) (outcome : SeatOutcome) : StatsSink n :=
  if h : outcome.seat < n then
    if outcome.satOut then sink
    else
      let seat : Fin n := ⟨outcome.seat, h⟩
      { sink with
        seats := Function.update sink.seats seat
          (credit (sink.seats seat) outcome (sink.vpipThisHand seat) (sink.pfrThisHand seat) pot) }
  else sink

def onEvent (sink : StatsSink n) : EngineEvent → StatsSink n
  | .handStarted _ _ _ =>
    { sink with
      currentStreet := .preflop
      vpipThisHand := fun _ => false
      pfrThisHand := fun _ => false }
  | .holeCardsDealt _ _ => sink
  | .boardDealt street _ => { sink with currentStreet := street }
  | .actionTaken seat action _ =>
    if h : seat < n then sink.onAction ⟨seat, h⟩ action else sink
  | .handEnded _ result => result.seats.foldl (onOutcome (potWon result)) sink
  | .playerAllIn _ _ => sink

def onEvents (sink : StatsSink n) (events : List EngineEvent) : StatsSink n :=
  events.foldl onEvent sink

end StatsSink

end VibePoker.Stats
