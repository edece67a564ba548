import VibePoker.Core.Shuffle

/-!
# The shuffle favours no order

The deck is shuffled by 51 draws, each from the indices up to the one that is filled. Every order
of the 52 cards comes from these draws, and from one choice of them: as there are as many choices
as orders, a generator that draws uniformly gives each order the same chance.

## Main definitions

* `RangeRng.ofDraws` — the generator that gives the draws named
* `Draws` — a choice for each of the 51 draws

## Main results

* `deck_order_bijective` — choices of the draws and orders of the deck correspond
-/

namespace VibePoker.Core

open VibePoker.Math

/-- The generator that gives the draws named, from whatever seed. -/
def RangeRng.ofDraws (draws : (i : ℕ) → Fin (i + 1)) : RangeRng ℕ where
  seedFromU64 seed := seed
  genRange i rng := (draws i, rng)

/-- A choice for each draw of the shuffle, from the index 1 on. -/
abbrev Draws := (i : Fin 51) → Fin (i + 2)

/-- The draws as a generator gives them; none is asked for at other indices. -/
def Draws.given (draws : Draws) : (i : ℕ) → Fin (i + 1)
  | 0 => 0
  | i + 1 => if h : i < 51 then draws ⟨i, h⟩ else 0

/-- The order of the cards after a shuffle with the given draws. -/
def Draws.order (draws : Draws) (seed : ℕ) :
    { order : Fin 52 → Card // Function.Bijective order } :=
  ⟨(RangeRng.ofDraws draws.given).order seed, RangeRng.order_bijective _ seed⟩

theorem Draws.order_eq (draws : Draws) (seed : ℕ) :
    (draws.order seed).val = Card.mk ∘ exchanges draws.given 51 (Nat.lt_succ_self 51) := by
  simp only [Draws.order, RangeRng.order, RangeRng.ofDraws, shuffleFrom_draws]

theorem card_mk_injective : Function.Injective Card.mk := fun _ _ h => Card.mk.inj h

/-- Each order of the deck comes from exactly one choice of the draws. -/
theorem deck_order_bijective (seed : ℕ) :
    Function.Bijective fun draws : Draws => draws.order seed := by
  constructor
  · intro draws draws' h
    dsimp only at h
    have horder : (draws.order seed).val = (draws'.order seed).val := by rw [h]
    rw [Draws.order_eq, Draws.order_eq] at horder
    have hsame : exchanges draws.given 51 (Nat.lt_succ_self 51) =
        exchanges draws'.given 51 (Nat.lt_succ_self 51) :=
      Equiv.ext fun j => card_mk_injective (congrFun horder j)
    funext i
    have hdraw := (exchanges_eq_iff _).mp hsame (i + 1) (Nat.succ_pos i) (by omega)
    rwa [Draws.given, Draws.given, dif_pos i.isLt, dif_pos i.isLt] at hdraw
  · rintro ⟨order, horder⟩
    -- the order as a permutation of the indices
    have hbijective : Function.Bijective fun j => (order j).index :=
      (show Function.Bijective Card.index from
        ⟨fun card card' h => congrArg Card.mk h, fun i => ⟨⟨i⟩, rfl⟩⟩).comp horder
    obtain ⟨draws, hdraws⟩ := exists_exchanges (Nat.lt_succ_self 51)
      (Equiv.ofBijective _ hbijective) fun j hj => absurd j.isLt (by omega)
    refine ⟨fun i => draws (i + 1), Subtype.ext ?_⟩
    have hsame : exchanges (Draws.given fun i => draws (i + 1)) 51 (Nat.lt_succ_self 51) =
        exchanges draws 51 (Nat.lt_succ_self 51) := by
      refine (exchanges_eq_iff _).mpr fun i hpos hle => ?_
      obtain ⟨i, rfl⟩ := Nat.exists_eq_succ_of_ne_zero (Nat.ne_of_gt hpos)
      exact dif_pos (Nat.lt_of_succ_le hle)
    rw [Draws.order_eq, hsame, hdraws]
    rfl

end VibePoker.Core
