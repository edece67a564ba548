import Mathlib.Order.Fin.Basic
import VibePoker.Core.Deck

/-!
# Preflop classes

Two hole cards count, up to the choice of suits, as a pair or as two ranks that are suited or
not: 169 classes, which are numbered from the aces down.

## Main results

* `PreflopClass.index_lt` — the numbers stay below 169
* `fromHole_comm` — the order of the two cards does not matter
-/

namespace VibePoker.Core

/-- A rank by its number, from the deuce to the ace. -/
abbrev Rank := Fin 13

instance instNeZeroRank : NeZero 13 := ⟨by decide⟩

/-- A suit by its number. -/
abbrev Suit := Fin 4

namespace Card

def rank (card : Card) : Rank := ⟨card.index / 4, by omega⟩

def suit (card : Card) : Suit := ⟨card.index % 4, by omega⟩

end Card

end VibePoker.Core

namespace VibePoker.Abstraction

open VibePoker.Core

/-- A preflop hand up to suits. The first rank of two is the higher one. -/
inductive PreflopClass
  | pair (rank : Rank)
  | suited (high low : Rank) (lt : low < high)
  | offsuit (high low : Rank) (lt : low < high)
deriving DecidableEq, Repr

namespace PreflopClass

/-- The class of two hole cards. -/
def fromHole (hole : Card × Card) : PreflopClass :=
  let ordered := if hole.2.rank ≤ hole.1.rank then hole else (hole.2, hole.1)
  let high := ordered.1
  let low := ordered.2
  if h : low.rank < high.rank then
    if high.suit = low.suit then .suited high.rank low.rank h else .offsuit high.rank low.rank h
  else .pair high.rank

/-- Place of two ranks in the rows of the higher rank, from the ace down. -/
def nonPairOffset (high low : ℕ) : ℕ := 78 - high * (high + 1) / 2 + (high - 1 - low)

/-- Number of a class: pairs, suited hands, offsuit hands. -/
def index : PreflopClass → ℕ
  | .pair rank => 12 - rank
  | .suited high low _ => 13 + nonPairOffset high low
  | .offsuit high low _ => 91 + nonPairOffset high low

theorem nonPairOffset_lt {high low : Rank} (h : low < high) : nonPairOffset high low < 78 := by
  revert high low
  decide

theorem index_lt (c : PreflopClass) : c.index < 169 := by
  cases c with
  | pair rank => exact (Nat.sub_le 12 rank).trans_lt (by decide)
  | suited high low lt =>
    have := nonPairOffset_lt lt
    rw [index]
    omega
  | offsuit high low lt =>
    have := nonPairOffset_lt lt
    rw [index]
    omega

theorem fromHole_comm (first second : Card) :
    fromHole (first, second) = fromHole (second, first) := by
  rcases lt_trichotomy first.rank second.rank with h | h | h
  · rw [fromHole, fromHole, if_neg h.not_ge, if_pos h.le]
  · simp [fromHole, h]
  · rw [fromHole, fromHole, if_pos h.le, if_neg h.not_ge]

end PreflopClass

end VibePoker.Abstraction
