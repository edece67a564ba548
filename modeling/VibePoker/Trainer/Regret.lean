import Mathlib.Algebra.Order.BigOperators.Group.List
import Mathlib.Tactic.FieldSimp
import VibePoker.Math.GameForm
import VibePoker.Trainer.Strategy

/-!
# Regrets and blueprints

The trainer keeps an entry for each info set that it has visited: the regrets of the abstract
actions, the sums of the strategies that it used, and the number of visits. Regret matching
turns the regrets into the current strategy, and a blueprint normalises the strategy sums.

Accumulators are rational numbers in place of `f32`.

## Main definitions

* `RegretTable` — the entries by info set
* `regretMatching` — the current strategy
* `RegretTable.averageStrategy` — the strategy of the blueprint

## Main results

* `regretMatching_total` — the current strategy is a distribution over the legal actions
-/

namespace VibePoker.Trainer

open VibePoker.Math VibePoker.Game

/-! ## The table -/

structure RegretEntry where
  regret : AbstractAction → ℚ
  strategySum : AbstractAction → ℚ
  visits : ℕ

/-- The entry of an info set that was not visited yet. -/
def RegretEntry.zero : RegretEntry :=
  { regret := fun _ => 0
    strategySum := fun _ => 0
    visits := 0 }

structure RegretTable where
  entries : InfoSet → Option RegretEntry

namespace RegretTable

def empty : RegretTable := ⟨fun _ => none⟩

def get (table : RegretTable) (info : InfoSet) : Option RegretEntry := table.entries info

/-- The entry of an info set, a fresh one if there is none. -/
def entryMut (table : RegretTable) (info : InfoSet) : RegretEntry :=
  (table.get info).getD .zero

/-- Write the entry of an info set. -/
def set (table : RegretTable) (info : InfoSet) (entry : RegretEntry) : RegretTable :=
  ⟨Function.update table.entries info (some entry)⟩

@[simp] theorem entryMut_set_self (table : RegretTable) (info : InfoSet) (entry : RegretEntry) :
    (table.set info entry).entryMut info = entry := by
  have hself : (table.set info entry).get info = some entry := Function.update_self ..
  rw [entryMut, hself, Option.getD_some]

theorem entryMut_set_of_ne (table : RegretTable) {info J : InfoSet} (h : J ≠ info)
    (entry : RegretEntry) : (table.set info entry).entryMut J = table.entryMut J := by
  have hother : (table.set info entry).get J = table.get J := Function.update_of_ne h ..
  rw [entryMut, hother, entryMut]

/-- The strategy of the blueprint: the time-averaged strategy, uniform where nothing was
accumulated. -/
def averageStrategy (table : RegretTable) (info : InfoSet) (legal : List AbstractAction) :
    ActionProbs :=
  match table.get info with
  | none => .uniformOver legal
  | some entry =>
    let sum := (legal.map entry.strategySum).sum
    if sum ≤ 0 then .uniformOver legal
    else { probs := fun a => if a ∈ legal then entry.strategySum a / sum else 0 }

end RegretTable

/-- A trained policy. -/
def blueprint (table : RegretTable) : StrategyAgent := fun info legal =>
  table.averageStrategy info (legalAbstractActions legal)

/-! ## Regret matching -/

/-- The legal actions in proportion to their positive regrets, or alike if there are none. -/
def regretMatching (regrets : AbstractAction → ℚ) (legal : List AbstractAction) : ActionProbs :=
  let sum := (legal.map fun a => max (regrets a) 0).sum
  { probs := fun a =>
      if a ∈ legal then if 0 < sum then max (regrets a) 0 / sum else 1 / legal.length else 0 }

section Matching

variable (regrets : AbstractAction → ℚ) (legal : List AbstractAction)

theorem regretMatching_nonneg (a : AbstractAction) :
    0 ≤ (regretMatching regrets legal).probs a := by
  rw [regretMatching]
  dsimp only
  split_ifs with hlegal hsum
  · exact div_nonneg (le_max_right _ _) hsum.le
  · exact div_nonneg zero_le_one (Nat.cast_nonneg _)
  · exact le_rfl

theorem regretMatching_off {a : AbstractAction} (h : a ∉ legal) :
    (regretMatching regrets legal).probs a = 0 := if_neg h

/-- The current strategy is a distribution over the legal actions. -/
theorem regretMatching_total (h : legal ≠ []) :
    (legal.map (regretMatching regrets legal).probs).sum = 1 := by
  set sum := (legal.map fun a => max (regrets a) 0).sum with hsum
  have hprobs : legal.map (regretMatching regrets legal).probs =
      legal.map fun a => if 0 < sum then max (regrets a) 0 / sum else 1 / legal.length :=
    List.map_congr_left fun a ha => if_pos ha
  rw [hprobs]
  by_cases hpos : 0 < sum
  · simp only [if_pos hpos, div_eq_mul_inv]
    rw [List.sum_map_mul_right, ← hsum, mul_inv_cancel₀ hpos.ne']
  · have hlength : (legal.length : ℚ) ≠ 0 :=
      Nat.cast_ne_zero.mpr (List.length_pos_iff.mpr h).ne'
    simp only [if_neg hpos, List.map_const', List.sum_replicate, nsmul_eq_mul]
    rw [mul_one_div, div_self hlength]

/-- An action with a positive regret is played. -/
theorem regretMatching_pos {a : AbstractAction} (ha : a ∈ legal) (h : 0 < regrets a) :
    0 < (regretMatching regrets legal).probs a := by
  have hle : max (regrets a) 0 ≤ (legal.map fun b => max (regrets b) 0).sum :=
    List.single_le_sum (by simp) _ (List.mem_map_of_mem ha)
  have hmax : 0 < max (regrets a) 0 := lt_max_of_lt_left h
  have hsum := hmax.trans_le hle
  rw [regretMatching]
  dsimp only
  rw [if_pos ha, if_pos hsum]
  exact div_pos hmax hsum

end Matching

/-- Regret matching as a rule of the game forms. -/
def regretRule : MixRule AbstractAction where
  weight regrets menu := (regretMatching regrets menu.actions).probs
  nonneg regrets menu := regretMatching_nonneg regrets menu.actions
  off regrets menu _ := regretMatching_off regrets menu.actions
  total regrets menu := regretMatching_total regrets menu.actions menu.ne_nil

/-! ## Exact sampling -/

/-- An action drawn exactly by its probability; it fails where the probabilities do not add up
to one. -/
def ActionProbs.draw (p : ActionProbs) : OptionT FinDist AbstractAction :=
  let likely := AbstractAction.all.filter fun a => 0 < p.probs a
  if h : (likely.map p.probs).sum = 1 then
    OptionT.lift (.ofWeights likely p.probs
      (fun _ ha => (of_decide_eq_true (List.mem_filter.mp ha).2).le) h)
  else failure

theorem legalAbstractActions_eq_filter (legal : LegalActions) :
    legalAbstractActions legal =
      AbstractAction.all.filter fun a => a ∈ legalAbstractActions legal := by
  rw [legalAbstractActions]
  cases legal.canCheck <;> cases legal.canCall <;> cases legal.canRaise <;>
    by_cases hall : 0 < legal.allInAmount <;> simp [hall, AbstractAction.all]

theorem legalAbstractActions_nodup (legal : LegalActions) : (legalAbstractActions legal).Nodup := by
  rw [legalAbstractActions_eq_filter]
  exact List.Nodup.filter _ (by decide)

/-- The current strategy of a menu in the order of the actions is drawn by the rule. -/
theorem draw_regretMatching (regrets : AbstractAction → ℚ) {menu : Menu AbstractAction}
    (horder : menu.actions = AbstractAction.all.filter fun a => a ∈ menu.actions) :
    (regretMatching regrets menu.actions).draw = OptionT.lift (regretRule.draw regrets menu) := by
  have hlikely : (AbstractAction.all.filter fun a =>
      0 < (regretMatching regrets menu.actions).probs a) = regretRule.likely regrets menu := by
    refine Eq.trans ?_ (congrArg (List.filter fun a =>
      0 < (regretMatching regrets menu.actions).probs a) horder).symm
    rw [List.filter_filter]
    refine List.filter_congr fun a _ => ?_
    by_cases ha : a ∈ menu.actions
    · simp [ha]
    · simp [ha, regretMatching_off regrets menu.actions ha]
  have hsum : ((AbstractAction.all.filter fun a =>
      0 < (regretMatching regrets menu.actions).probs a).map
        (regretMatching regrets menu.actions).probs).sum = 1 := by
    rw [hlikely]
    exact regretRule.sum_likely regrets menu
  rw [ActionProbs.draw, dif_pos hsum]
  refine congrArg OptionT.lift (FinDist.eq_of_outcomes ?_)
  exact congrArg (List.map fun a => (a, (regretMatching regrets menu.actions).probs a)) hlikely

end VibePoker.Trainer
