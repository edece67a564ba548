import VibePoker.Theorems.ExactSampling
import VibePoker.Trainer.Training

/-!
# The regrets of a trained table

Whatever is dealt and drawn, training keeps the regrets of each entry in proportion to the square
root of the number of its updates: the squares of the positive regrets add up to at most four
times the square of all chips for each update. The updates are counted by the strategy sums, so
that this relates two fields of an entry. The blueprint made of the table gives distributions.

## Main definitions

* `TrainedEntry` — what holds of an entry after so many iterations
* `Distributes` — a distribution over the legal actions

## Main results

* `train_bounds_regrets` — every entry of a trained table is in order
-/

namespace VibePoker.Trainer

open VibePoker.Core VibePoker.Math VibePoker.Game

/-! ## The statement -/

/-- What holds of an entry after so many iterations with so many chips: its positive regrets grow
with the square root of its updates, and each update added a distribution to the strategy sums. -/
structure TrainedEntry (chips iters : ℕ) (entry : RegretEntry) : Prop where
  regret_le : ∑ a, max (entry.regret a) 0 ^ 2 ≤ 4 * (chips : ℚ) ^ 2 * ∑ a, entry.strategySum a
  updates_le : ∑ a, entry.strategySum a ≤ iters
  strategySum_nonneg : ∀ a, 0 ≤ entry.strategySum a

/-- The probabilities are a distribution over the legal actions. -/
structure Distributes (p : ActionProbs) (legal : List AbstractAction) : Prop where
  nonneg : ∀ a, 0 ≤ p.probs a
  off : ∀ a ∉ legal, p.probs a = 0
  total : (legal.map p.probs).sum = 1

/-! ## The blueprint -/

theorem distributes_uniformOver {legal : List AbstractAction} (h : legal ≠ []) :
    Distributes (.uniformOver legal) legal := by
  refine ⟨fun a => ?_, fun a ha => if_neg ha, ?_⟩
  · rw [ActionProbs.uniformOver]
    dsimp only
    split
    · exact div_nonneg zero_le_one (Nat.cast_nonneg _)
    · exact le_rfl
  · have hprobs : legal.map (ActionProbs.uniformOver legal).probs =
        legal.map fun _ => 1 / (legal.length : ℚ) :=
      List.map_congr_left fun a ha => if_pos ha
    have hlength : (legal.length : ℚ) ≠ 0 :=
      Nat.cast_ne_zero.mpr (List.length_pos_iff.mpr h).ne'
    rw [hprobs, List.map_const', List.sum_replicate, nsmul_eq_mul, mul_one_div, div_self hlength]

theorem distributes_averageStrategy {table : RegretTable} {J : InfoSet}
    (hnonneg : ∀ a, 0 ≤ (table.entryMut J).strategySum a) {legal : List AbstractAction}
    (h : legal ≠ []) : Distributes (table.averageStrategy J legal) legal := by
  rw [RegretTable.averageStrategy]
  cases hentry : table.get J with
  | none => exact distributes_uniformOver h
  | some entry =>
    dsimp only
    split
    case isTrue => exact distributes_uniformOver h
    case isFalse hsum =>
      have hpos := not_le.mp hsum
      have hsums : ∀ a, 0 ≤ entry.strategySum a := by
        rwa [RegretTable.entryMut, hentry, Option.getD_some] at hnonneg
      refine ⟨fun a => ?_, fun a ha => if_neg ha, ?_⟩
      · dsimp only
        split
        · exact div_nonneg (hsums a) hpos.le
        · exact le_rfl
      · have hprobs : (legal.map fun a => if a ∈ legal then
            entry.strategySum a / (legal.map entry.strategySum).sum else 0) =
            legal.map fun a => entry.strategySum a * (legal.map entry.strategySum).sum⁻¹ :=
          List.map_congr_left fun a ha => by rw [if_pos ha, div_eq_mul_inv]
        rw [hprobs, List.sum_map_mul_right, mul_inv_cancel₀ hpos.ne']

/-! ## Training -/

variable {e : Engine} {startingStacks : List ℕ} {smallBlind bigBlind : ℕ}

/-- However the decks are shuffled and the opponent's actions drawn, training returns a table
whose entries are in order, and the blueprint made of it gives distributions. -/
theorem train_bounds_regrets (hrules : e.rules = .noLimitHoldem smallBlind bigBlind)
    (hblinds : smallBlind ≤ bigBlind) (hblind : 0 < bigBlind) (hseats : startingStacks.length = 2)
    (hchips : ∀ stack ∈ startingStacks, 0 < stack) (shuffle : ℕ → Fin 52 → Card)
    (seed iters : ℕ) :
    ∃ bound, ∀ fuel, bound < fuel →
      (train e fuel shuffle seed startingStacks iters).run.Surely fun o =>
        ∃ table, o = some table ∧ ∀ J,
          TrainedEntry startingStacks.sum iters (table.entryMut J) ∧
            ∀ legal, legal ≠ [] → Distributes (table.averageStrategy J legal) legal := by
  obtain ⟨bound, hbound⟩ := surely_train
    (Tally.Bounded (Fintype.card AbstractAction * (startingStacks.sum : ℚ) ^ 2))
    ⟨by simp [potential], by simp, fun _ => le_rfl⟩
    (fun k t h => h.mono k.le_succ)
    (fun k t t' h hcredit => h.credited regretRule_matches hcredit)
    hrules hblinds hblind hseats hchips shuffle seed iters
  refine ⟨bound, fun fuel hfuel => (hbound fuel hfuel).mono fun o ho => ?_⟩
  obtain ⟨table, rfl, hbounded⟩ := ho
  refine ⟨table, rfl, fun J => ⟨⟨?_, (hbounded J).total_le, (hbounded J).nonneg⟩,
    fun legal hlegal => distributes_averageStrategy (hbounded J).nonneg hlegal⟩⟩
  exact (hbounded J).potential_le

/-- Three iterations with twenty-five big blinds. -/
theorem train_bounds_regrets_fifty :
    ∃ bound, ∀ fuel, bound < fuel →
      (train smallGame fuel (fun _ => Card.mk) 7 [50, 50] 3).run.Surely fun o =>
        ∃ table, o = some table ∧ ∀ J, TrainedEntry 100 3 (table.entryMut J) ∧
          ∀ legal, legal ≠ [] → Distributes (table.averageStrategy J legal) legal :=
  train_bounds_regrets rfl (by decide) (by decide) rfl (by decide) (fun _ => Card.mk) 7 3

end VibePoker.Trainer
