import VibePoker.Game.Cover
import VibePoker.Math.RegretMatching
import VibePoker.Trainer.Mccfr

/-!
# The training loop

The trainer iterates on one hand after the other. The seed gives each iteration a deck of its
own, and the button moves between the two seats. All iterations work on one table.

## Main definitions

* `train` — the loop

## Main results

* `regretRule_matches` — regret matching mixes in proportion to the positive regrets
* `within_abstractGame` — what the abstract game of a hand pays
* `surely_iterate` — an iteration credits each entry at most once
* `surely_train` — what each credit keeps, the loop keeps
-/

namespace VibePoker.Trainer

open VibePoker.Core VibePoker.CS VibePoker.Math VibePoker.Game

variable {e : Engine}

/-! ## The loop -/

/-- The deck seed of an iteration. The additions wrap around. -/
def iterationSeed (seed i : ℕ) : ℕ := ((seed + i) % 2 ^ 64 + 1) % 2 ^ 64

/-- The given number of iterations, from an empty table on. `shuffle` is the order in which the
deck of a seed deals. -/
def train (e : Engine) (fuel : ℕ) (shuffle : ℕ → Fin 52 → Card) (seed : ℕ)
    (startingStacks : List ℕ) (iters : ℕ) : OptionT FinDist RegretTable :=
  (List.range iters).foldlM (fun table i =>
    iterate e fuel (iterationSeed seed i) (shuffle (iterationSeed seed i)) startingStacks (i % 2)
      table) .empty

theorem train_succ (fuel : ℕ) (shuffle : ℕ → Fin 52 → Card) (seed : ℕ) (startingStacks : List ℕ)
    (iters : ℕ) : train e fuel shuffle seed startingStacks (iters + 1) =
      train e fuel shuffle seed startingStacks iters >>=
        iterate e fuel (iterationSeed seed iters) (shuffle (iterationSeed seed iters))
          startingStacks (iters % 2) := by
  rw [train, List.range_succ, List.foldlM_append]
  simp only [List.foldlM_cons, List.foldlM_nil, bind_pure]
  rfl

/-! ## Regret matching as a rule -/

instance abstractAction_fintype : Fintype AbstractAction where
  elems := AbstractAction.all.toFinset
  complete a := List.mem_toFinset.mpr (AbstractAction.mem_all a)

theorem regretRule_matches : regretRule.Matches := by
  intro regrets menu a ha
  change (regretMatching regrets menu.actions).probs a * _ = _
  have hle : max (regrets a) 0 ≤ (menu.actions.map fun b => max (regrets b) 0).sum :=
    List.single_le_sum (by simp) _ (List.mem_map_of_mem ha)
  rw [regretMatching]
  dsimp only
  rw [if_pos ha]
  split
  case isTrue hpos => rw [div_mul_cancel₀ _ hpos.ne']
  case isFalse hzero =>
    -- without a positive regret there is nothing to be in proportion to
    have hsum := (le_max_right (regrets a) 0).trans hle
    rw [le_antisymm (not_lt.mp hzero) hsum, mul_zero]
    exact le_antisymm (le_max_right _ _) (hle.trans (not_lt.mp hzero))

/-! ## What a hand pays -/

section Hand

variable {startingStacks : List ℕ} {deckSeed dealer : ℕ} {order : Fin 52 → Card}
  {root : GameTree startingStacks.length}

/-- At the end of a hand a seat has lost its stack at most, and won the other stacks at most. -/
theorem netChips_mem {tree : GameTree startingStacks.length}
    {chipDeltas : Fin startingStacks.length → ℤ}
    (h : Settlement startingStacks.get tree.state chipDeltas)
    (hpays : PaysOut tree.state chipDeltas) (i : Fin startingStacks.length) :
    -(startingStacks.get i : ℚ) ≤ netChips tree.state chipDeltas i ∧
      netChips tree.state chipDeltas i ≤
        -(startingStacks.get i : ℚ) + (startingStacks.sum : ℚ) := by
  have hcommitted := h.committed_le i
  have haward := h.award_nonneg i
  have hnet := h.net_le hpays i
  have hsplit := Finset.add_sum_erase Finset.univ (fun j => (startingStacks.get j : ℤ))
    (Finset.mem_univ i)
  have htotal : ∑ j, (startingStacks.get j : ℤ) = startingStacks.sum := by
    rw [← Nat.cast_sum, ← List.sum_ofFn, List.ofFn_get]
  rw [netChips]
  generalize startingStacks.sum = total at htotal ⊢
  constructor
  · have hlow : -(startingStacks.get i : ℤ) ≤
        chipDeltas i - (tree.state.players i).totalCommitted := by omega
    exact_mod_cast hlow
  · have hhigh : chipDeltas i - (tree.state.players i).totalCommitted ≤
        -(startingStacks.get i : ℤ) + total := by omega
    exact_mod_cast hhigh

/-- Such hands stay sound: no forced bet is folded without a bet to match, and the last
contender is not asked. -/
theorem sound_of_reached (hblind : 0 < e.rules.bigBlind) (hfunded : 2 ≤ fundedSeats startingStacks)
    (hroot : (GameTree.new e 0 deckSeed order startingStacks dealer none).2 = some root)
    {used : List Action} {tree : GameTree startingStacks.length}
    (htrace : Trace (GameTree.Step e fun _ _ => True) root used tree) :
    Sound e startingStacks.get (2 * fundedSeats startingStacks) tree := by
  refine sound_of_trace ?_ (two_contenders hfunded hroot htrace)
    (sound_new (by omega) (coveredStart_none e startingStacks dealer) hroot)
  rintro d action ⟨-, htwo⟩
  exact ⟨fun _ => Or.inl htwo, fun _ => Or.inl hblind⟩

/-- The abstract game of a hand pays a seat no more than the stacks allow. -/
theorem within_abstractGame (hblind : 0 < e.rules.bigBlind)
    (hfunded : 2 ≤ fundedSeats startingStacks)
    (hroot : (GameTree.new e 0 deckSeed order startingStacks dealer none).2 = some root)
    {used : List Action} {tree : GameTree startingStacks.length}
    (htrace : Trace (GameTree.Step e fun _ _ => True) root used tree) (fuel : ℕ)
    (history : List AbstractAction) (i : Fin startingStacks.length) :
    (abstractGame e fuel tree history).Within i (-(startingStacks.get i : ℚ))
      (-(startingStacks.get i : ℚ) + (startingStacks.sum : ℚ)) := by
  have hle : startingStacks.get i ≤ startingStacks.sum :=
    List.single_le_sum (fun _ _ => Nat.zero_le _) _ (List.get_mem _ _)
  have hzero : -(startingStacks.get i : ℚ) ≤ 0 ∧
      0 ≤ -(startingStacks.get i : ℚ) + (startingStacks.sum : ℚ) := by
    have hcast : (startingStacks.get i : ℚ) ≤ startingStacks.sum := by exact_mod_cast hle
    have hnonneg : (0 : ℚ) ≤ startingStacks.get i := Nat.cast_nonneg _
    constructor <;> linarith
  induction fuel generalizing used tree history with
  | zero => exact hzero
  | succ fuel ih =>
    cases hphase : tree.phase with
    | terminal chipDeltas =>
      obtain ⟨hsettled, hpays⟩ := (sound_of_reached hblind hfunded hroot htrace).settled _ hphase
      simp only [abstractGame, hphase]
      exact netChips_mem hsettled hpays i
    | decision seat hasResponded =>
      rcases abstractGame_cases e (fuel + 1) tree history with ⟨utility, hgame⟩ |
        ⟨_, d, obs, hfuel, hd, hobs, hlegal, hgame⟩
      · simp only [abstractGame, hphase] at hgame ⊢
        split at hgame
        · exact hzero
        · split at hgame
          · rw [dif_pos ‹_›]
            exact hzero
          · cases hgame
      · obtain rfl := Nat.succ.inj hfuel
        rw [hgame]
        intro a _
        cases hstep : (tree.applyAction e (concretize a obs)).2 with
        | none =>
          rw [gameAfter, hstep]
          exact hzero
        | some tree' =>
          rw [gameAfter_of_step hstep]
          exact ih (htrace.append (.cons ⟨d, hd, trivial, hstep⟩ (.nil tree'))) _

end Hand

/-! ## An iteration -/

section Iteration

variable {startingStacks : List ℕ} {smallBlind bigBlind : ℕ}

/-- With enough fuel an iteration returns, and credits each entry at most once. -/
theorem surely_iterate (hrules : e.rules = .noLimitHoldem smallBlind bigBlind)
    (hblinds : smallBlind ≤ bigBlind) (hblind : 0 < bigBlind) (hseats : startingStacks.length = 2)
    (hchips : ∀ stack ∈ startingStacks, 0 < stack) (deckSeed : ℕ) (order : Fin 52 → Card)
    (dealer : ℕ) :
    ∃ bound, ∀ fuel, bound < fuel → ∀ table,
      (iterate e fuel deckSeed order startingStacks dealer table).run.Surely fun o =>
        ∃ table', o = some table' ∧ ∀ J, tallies table' J = tallies table J ∨
          (tallies table J).Credited regretRule (startingStacks.sum : ℚ) (tallies table' J) := by
  have hfunded : fundedSeats startingStacks = 2 := by
    rw [← hseats]
    exact List.countP_eq_length.mpr fun stack hstack => decide_eq_true (hchips stack hstack)
  obtain ⟨root, hroot⟩ := @new_isSome e 0 deckSeed order startingStacks dealer none
    (by omega) (fun _ _ => rfl) ⟨0, by omega⟩ (hchips _ (List.get_mem _ _)) rfl
  obtain ⟨bound, hbound⟩ := exists_completesWithin hroot hrules hblinds hblind hseats hchips
  refine ⟨bound, fun fuel hfuel table => ?_⟩
  have hwithin := within_abstractGame (by rwa [hrules]) hfunded.ge hroot (.nil root) fuel []
  exact (traversals_yields hroot (hbound fuel hfuel) _ table).surely
    (rounds_credited (separated_abstractGame fuel root []) hwithin (List.nodup_finRange _)
      (tallies table))

/-- What holds of the empty tally, and after a credit of one more, holds of the tallies after
that many iterations. -/
theorem surely_train (Inv : ℕ → Tally AbstractAction → Prop)
    (hstart : Inv 0 ⟨fun _ => 0, fun _ => 0⟩)
    (hlater : ∀ k t, Inv k t → Inv (k + 1) t)
    (hcredit : ∀ k t t', Inv k t → t.Credited regretRule (startingStacks.sum : ℚ) t' →
      Inv (k + 1) t')
    (hrules : e.rules = .noLimitHoldem smallBlind bigBlind) (hblinds : smallBlind ≤ bigBlind)
    (hblind : 0 < bigBlind) (hseats : startingStacks.length = 2)
    (hchips : ∀ stack ∈ startingStacks, 0 < stack) (shuffle : ℕ → Fin 52 → Card)
    (seed iters : ℕ) :
    ∃ bound, ∀ fuel, bound < fuel →
      (train e fuel shuffle seed startingStacks iters).run.Surely fun o =>
        ∃ table, o = some table ∧ ∀ J, Inv iters (tallies table J) := by
  induction iters with
  | zero =>
    refine ⟨0, fun fuel _ => FinDist.surely_pure ⟨.empty, rfl, fun J => ?_⟩⟩
    exact hstart
  | succ iters ih =>
    obtain ⟨bound, hbound⟩ := ih
    obtain ⟨bound', hbound'⟩ := surely_iterate hrules hblinds hblind hseats hchips
      (iterationSeed seed iters) (shuffle (iterationSeed seed iters)) (iters % 2)
    refine ⟨max bound bound', fun fuel hfuel => ?_⟩
    rw [train_succ]
    refine FinDist.surely_run_bind (hbound fuel (by omega)) fun table htable => ?_
    refine (hbound' fuel (by omega) table).mono fun o ho => ?_
    obtain ⟨table', rfl, hcredited⟩ := ho
    refine ⟨table', rfl, fun J => ?_⟩
    rcases hcredited J with hsame | hcredited
    · rw [hsame]
      exact hlater iters _ (htable J)
    · exact hcredit iters _ _ (htable J) hcredited

end Iteration

end VibePoker.Trainer
