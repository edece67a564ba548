import VibePoker.Theorems.BetCaps
import VibePoker.Trainer.Descent

/-!
# Raises to the size of the pot

What the trainer offers is accepted by the engine. An abstract raise is documented as a raise
to the size of the pot: the bet to match and the pot after calling. It is built from the
minimum raise and the pot before calling instead, so that it is the documented one only where
the minimum raise increment is what the seat owes, or where the clamp hides the difference.
All this is about hands in which no amount overflows.

## Main definitions

* `documentedTarget` — the street total that the documentation gives
* `ConcretizesAsDocumented` — the offered actions are legal, and the raise is the documented one
* `TargetsMeet` — where the two totals are the same

## Main results

* `concretizesAsDocumented_iff` — the raise is the documented one exactly there
-/

namespace VibePoker.Trainer

open VibePoker.Core VibePoker.Game

variable {n : ℕ} {e : Engine} {d : Decision n} {obs : Observation}

/-- The bet to match and the pot after calling, within the bounds of a raise. -/
def documentedTarget (d : Decision n) (obs : Observation) : ℕ :=
  max (min (d.state.currentBet + d.potAfterCall) obs.legalActions.maxRaise)
    obs.legalActions.minRaise

/-- Every offered abstract action stands for a legal action, and a raise for the documented
one. -/
structure ConcretizesAsDocumented (d : Decision n) (obs : Observation) : Prop where
  legal : ∀ a ∈ legalAbstractActions obs.legalActions,
    ∃ action, concretizeChecked a obs = some action ∧ obs.legalActions.isLegal action
  raise : .raise ∈ legalAbstractActions obs.legalActions →
    concretizeChecked .raise obs = some (.raise (documentedTarget d obs))

/-- The two totals are the same: the minimum raise increment is what the seat owes, or both
totals take the whole stack, or there is nothing in the pot and no more owed than the
increment. -/
def TargetsMeet (d : Decision n) : Prop :=
  d.owed = d.state.minRaiseIncrement ∨
    (d.reach ≤ d.state.currentBet + d.state.minRaiseIncrement + d.state.potTotal ∧
      d.reach ≤ d.state.currentBet + d.potAfterCall) ∨
    (d.state.potTotal = 0 ∧ d.owed ≤ d.state.minRaiseIncrement)

instance (d : Decision n) : Decidable (TargetsMeet d) :=
  inferInstanceAs (Decidable (_ ∨ _ ∨ _))

/-! ## The raise -/

/-- The pot that the raise is built from is the whole pot before calling. -/
theorem potTarget_eq (h : d.observation e = some obs) :
    potTarget obs =
      max (min (obs.legalActions.minRaise + d.state.potTotal) obs.legalActions.maxRaise)
        obs.legalActions.minRaise := by
  obtain ⟨hole, -, rfl⟩ := Option.map_eq_some_iff.mp h
  rw [potTarget, GameState.potTotal, publicPlayers, List.map_ofFn, List.sum_ofFn]
  rfl

/-- In no-limit betting an open raise goes from the minimum raise to the whole stack. -/
theorem noLimit_bounds (h : d.observation e = some obs) (hvariant : e.rules.variant = .noLimit) :
    obs.legalActions.minRaise = d.state.currentBet + d.state.minRaiseIncrement ∧
      obs.legalActions.maxRaise = d.reach ∧
        (obs.legalActions.canRaise → obs.legalActions.minRaise < obs.legalActions.maxRaise) := by
  rw [Decision.observation_legalActions h]
  simp only [Engine.computeLegalActions, hvariant, Decision.reach, Bool.and_eq_true,
    decide_eq_true_eq]
  exact ⟨trivial, trivial, fun hopen => hopen.2⟩

/-- Where a raise is open, the two totals are the same exactly where `TargetsMeet` says. -/
theorem potTarget_eq_documentedTarget_iff (h : d.observation e = some obs)
    (hvariant : e.rules.variant = .noLimit) (hopen : obs.legalActions.canRaise) :
    potTarget obs = documentedTarget d obs ↔ TargetsMeet d := by
  obtain ⟨hmin, hmax, hlt⟩ := noLimit_bounds h hvariant
  have hroom := hlt hopen
  rw [potTarget_eq h, documentedTarget, TargetsMeet, Decision.potAfterCall]
  rw [hmin, hmax] at hroom ⊢
  omega

/-- What is read off an observation is computed without overflow if the pot fits its word. -/
theorem concretizeChecked_of_observation (h : d.observation e = some obs)
    (hvariant : e.rules.variant = .noLimit) (hreach : d.reach < 2 ^ 32)
    (hpot : d.state.potTotal < 2 ^ 32) (a : AbstractAction) :
    concretizeChecked a obs = some (concretize a obs) := by
  refine concretizeChecked_eq ?_ ?_ a
  · obtain ⟨hole, -, rfl⟩ := Option.map_eq_some_iff.mp h
    rw [publicPlayers, List.map_ofFn, List.sum_ofFn]
    exact hpot
  · rw [(noLimit_bounds h hvariant).2.1]
    exact hreach

/-- At a decision of a no-limit hand in which no amount overflows, the offered actions are
legal, and the raise is the documented one exactly where no raise is open or the two totals are
the same. -/
theorem concretizesAsDocumented_iff {handId deckSeed : ℕ} {order : Fin 52 → Card}
    {startingStacks : List ℕ} {dealer : ℕ} {seatKinds : Option (List SeatKind)}
    {answers : List Action}
    {hand : List (Output startingStacks.length) × HandOutcome startingStacks.length}
    {d : Decision startingStacks.length} (hvariant : e.rules.variant = .noLimit)
    (hstacks : ∀ stack ∈ startingStacks, stack < 2 ^ 32)
    (hhand : runHandChecked e handId deckSeed order startingStacks dealer seatKinds answers =
      some hand) (h : (d, obs) ∈ promptsOf hand.1) (hpot : d.state.potTotal < 2 ^ 32) :
    ConcretizesAsDocumented d obs ↔ (obs.legalActions.canRaise → TargetsMeet d) := by
  obtain rfl := runHand_of_checked hhand
  obtain ⟨-, -, -, -, -, -, hobs⟩ := asked_of_prompt h
  obtain ⟨deck, hplaying⟩ := playing_of_prompt h
  have hreach : d.reach < 2 ^ 32 := by
    have hledger := hplaying.ledger.seat d.seat
    have hstart := hledger.stack_add
    have hbet := hledger.bet_le
    have hfits := hstacks _ (List.get_mem startingStacks d.seat)
    rw [Decision.reach]
    omega
  have hconcrete := concretizeChecked_of_observation hobs hvariant hreach hpot
  have hraise : obs.legalActions.canRaise →
      (concretizeChecked .raise obs = some (.raise (documentedTarget d obs)) ↔
        TargetsMeet d) := by
    intro hopen
    rw [hconcrete, concretize, if_pos hopen, Option.some.injEq, Action.raise.injEq]
    exact potTarget_eq_documentedTarget_iff hobs hvariant hopen
  constructor
  · intro hdocumented hopen
    exact (hraise hopen).mp (hdocumented.raise (mem_legalAbstractActions_iff.mpr hopen))
  · intro hmeet
    refine ⟨fun a ha => ⟨_, hconcrete a, ?_⟩, fun hoffered => ?_⟩
    · exact concretize_isLegal (fun hopen => ((noLimit_bounds hobs hvariant).2.2 hopen).le) ha
    · have hopen := mem_legalAbstractActions_iff.mp hoffered
      exact (hraise hopen).mpr (hmeet hopen)

/-! ## The first two raises of a hand -/

/-- A heads-up hand with blinds of one and two and fifty big blinds. -/
def headsUpHand (answers : List Action) :
    List (Output [100, 100].length) × HandOutcome [100, 100].length :=
  runHand ⟨.noLimitHoldem 1 2, ⟨fun _ => 0⟩⟩ 1 0 Card.mk [100, 100] 0 none answers

/-- After a minimum raise the big blind owes as much as the increment. -/
theorem concretizesAsDocumented_three_bet :
    ∃ p ∈ promptsOf (headsUpHand [.raise 4]).1, p.1.owed = 2 ∧
      p.2.legalActions.canRaise ∧ ConcretizesAsDocumented p.1 p.2 := by
  have hasked : (promptsOf (headsUpHand [.raise 4]).1).any (fun p =>
      decide (p.1.owed = 2 ∧ p.2.legalActions.canRaise ∧ TargetsMeet p.1 ∧
        p.1.state.potTotal < 2 ^ 32)) = true := by
    decide +kernel
  obtain ⟨p, hp, hmeets⟩ := List.any_eq_true.mp hasked
  obtain ⟨howed, hopen, hmeet, hpot⟩ := of_decide_eq_true hmeets
  have hhand : runHandChecked ⟨.noLimitHoldem 1 2, ⟨fun _ => 0⟩⟩ 1 0 Card.mk [100, 100] 0 none
      [.raise 4] = some _ := runHandChecked_of_isSome (by decide +kernel)
  exact ⟨p, hp, howed, hopen,
    (concretizesAsDocumented_iff rfl (by decide) hhand hp hpot).mpr fun _ => hmeet⟩

/-- The small blind is the first to raise: documented is a raise to six, made is one to
seven. -/
theorem open_raise_undocumented :
    ¬ ∀ p ∈ promptsOf (headsUpHand []).1, ConcretizesAsDocumented p.1 p.2 := by
  intro h
  have hasked : (promptsOf (headsUpHand []).1).any (fun p => decide
      (p.2.legalActions.canRaise ∧ concretizeChecked .raise p.2 = some (.raise 7) ∧
        documentedTarget p.1 p.2 = 6)) = true := by
    decide +kernel
  obtain ⟨p, hp, htargets⟩ := List.any_eq_true.mp hasked
  obtain ⟨hopen, hmade, hdocumented⟩ := of_decide_eq_true htargets
  have hraise := (h p hp).raise (mem_legalAbstractActions_iff.mpr hopen)
  rw [hmade, hdocumented] at hraise
  cases hraise

end VibePoker.Trainer
