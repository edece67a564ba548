import Mathlib.Data.List.Destutter
import Mathlib.Data.List.Sort
import VibePoker.Game.State

/-!
# Pot calculation

Collecting street bets into the pot and slicing the committed chips into the
pots of a showdown.
-/

namespace VibePoker.Game

variable {n : ℕ}

/-- Move every street bet into the main pot. -/
def collectStreetBets (s : GameState n) : GameState n :=
  { s with
    pot := { s.pot with main := s.pot.main + ∑ i, (s.players i).betThisStreet }
    players := fun i => { s.players i with betThisStreet := 0 } }

/-- Unique positive commitment levels, ascending. -/
def commitmentLevels (players : Fin n → PlayerState) : List ℕ :=
  ((((List.finRange n).map fun i => (players i).totalCommitted).filter (0 < ·)).insertionSort
    (· ≤ ·)).destutter (· ≠ ·)

/-- Seats, folded or not, that committed at least `level`. -/
def contributors (players : Fin n → PlayerState) (level : ℕ) : ℕ :=
  (Finset.univ.filter fun i => level ≤ (players i).totalCommitted).card

/-- Seats that may win the slice ending at `level`. -/
def eligibleSeats (players : Fin n → PlayerState) (level : ℕ) : List (Fin n) :=
  (List.finRange n).filter fun i =>
    level ≤ (players i).totalCommitted ∧ (players i).status ≠ .folded

/-- Add a slice without eligible seats to the last pot made so far; without
such a pot the chips are dropped. -/
def mergeIntoLast (amount : ℕ) : List (ℕ × List (Fin n)) → List (ℕ × List (Fin n))
  | [] => []
  | [pot] => [(pot.1 + amount, pot.2)]
  | pot :: pots => pot :: mergeIntoLast amount pots

/-- The loop of `buildShowdownPots` over the commitment levels. -/
def buildPotsFrom (players : Fin n → PlayerState) (prev : ℕ) :
    List ℕ → List (ℕ × List (Fin n)) → List (ℕ × List (Fin n))
  | [], result => result
  | level :: levels, result =>
    let potSlice := (level - prev) * contributors players level
    if potSlice = 0 then buildPotsFrom players level levels result
    else
      let eligible := eligibleSeats players level
      if eligible = [] then
        buildPotsFrom players level levels (mergeIntoLast potSlice result)
      else buildPotsFrom players level levels (result ++ [(potSlice, eligible)])

/-- The `(amount, eligible seats)` pots of a showdown, lowest level first. -/
def buildShowdownPots (players : Fin n → PlayerState) : List (ℕ × List (Fin n)) :=
  buildPotsFrom players 0 (commitmentLevels players) []

end VibePoker.Game
