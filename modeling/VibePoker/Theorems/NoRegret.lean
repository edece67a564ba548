import VibePoker.Theorems.ExactSampling
import VibePoker.Trainer.Sessions

/-!
# Training has no regret

The regrets that training accumulates are on average the counterfactual regrets of the traversals,
each by the table that the traversal found. They grow with the square root of the number of
iterations only. So does what a seat could have gained before the flop, where it remembers its
play, by going by a fixed plan from the first iteration on.

After the flop a seat does not remember the class of its hole cards, and the regrets of its info
sets say nothing about a plan.

## Main definitions

* `accumulatedRegret` — counterfactual regrets over the traversals of training
* `preflopGain` — what a plan gains a seat in an iteration

## Main results

* `train_accumulates_regret` — what the regrets of a trained table are on average
* `train_has_no_regret` — no plan before the flop gains much
-/

namespace VibePoker.Trainer

open VibePoker.Core VibePoker.CS VibePoker.Math VibePoker.Game

variable {e : Engine} {startingStacks : List ℕ} {smallBlind bigBlind : ℕ}

/-! ## The statements -/

/-- The counterfactual regrets of the abstract action `a` at the info set `J`, each averaged over
the tables that a traversal may find, over all traversals of all iterations. -/
def accumulatedRegret (e : Engine) (fuel : ℕ) (shuffle : ℕ → Fin 52 → Card) (seed : ℕ)
    (startingStacks : List ℕ) (iters : ℕ) (J : InfoSet) (a : AbstractAction) : ℚ :=
  ∑ t ∈ Finset.range iters, ∑ i, (trainBefore e fuel shuffle seed startingStacks t i).run.expect
    fun o => o.elim 0 fun table =>
      (handGame e fuel shuffle seed startingStacks t).regretOf regretRule (tallies table) i J a

/-- What seat `i` gains on average in the iteration `t`, if before the flop it goes by the plan
whenever it is in the given position, and otherwise both seats play by the table that the
traversal for the seat finds. -/
def preflopGain (e : Engine) (fuel : ℕ) (shuffle : ℕ → Fin 52 → Card) (seed : ℕ)
    (startingStacks : List ℕ) (position : ℕ) (plan : InfoSet → AbstractAction → ℚ) (t : ℕ)
    (i : Fin startingStacks.length) : ℚ :=
  (trainBefore e fuel shuffle seed startingStacks t i).run.expect fun o => o.elim 0 fun table =>
    (handGame e fuel shuffle seed startingStacks t).deviate regretRule (tallies table) i
        (Preflop position) plan -
      (handGame e fuel shuffle seed startingStacks t).value regretRule (tallies table) i

/-! ## Regrets -/

/-- Training does not fail, and neither does what comes before a traversal. The regrets of the
trained table are on average the counterfactual regrets that the traversals accumulate. Their
positive parts grow with the square root of the number of iterations. -/
theorem train_accumulates_regret (hrules : e.rules = .noLimitHoldem smallBlind bigBlind)
    (hblinds : smallBlind ≤ bigBlind) (hblind : 0 < bigBlind) (hseats : startingStacks.length = 2)
    (hchips : ∀ stack ∈ startingStacks, 0 < stack) {fuel : ℕ}
    (hfuel : handBound startingStacks < fuel) (shuffle : ℕ → Fin 52 → Card) (seed iters : ℕ)
    (J : InfoSet) :
    ((train e fuel shuffle seed startingStacks iters).run.Surely fun o => o.isSome) ∧
    (∀ t i, (trainBefore e fuel shuffle seed startingStacks t i).run.Surely fun o => o.isSome) ∧
    (∀ a, ((train e fuel shuffle seed startingStacks iters).run.expect fun o =>
        o.elim 0 fun table => (table.entryMut J).regret a) =
      accumulatedRegret e fuel shuffle seed startingStacks iters J a) ∧
    ∑ a, max (accumulatedRegret e fuel shuffle seed startingStacks iters J a) 0 ^ 2 ≤
      4 * (startingStacks.sum : ℚ) ^ 2 * iters := by
  have hyields : FinDist.Yields tallies (train e fuel shuffle seed startingStacks iters) _ :=
    train_yields hrules hblinds hblind hseats hchips hfuel iters
  have hbefore : ∀ t i, FinDist.Yields tallies
      (trainBefore e fuel shuffle seed startingStacks t i) _ :=
    trainBefore_yields hrules hblinds hblind hseats hchips hfuel
  have htrained : ∀ a, ((train e fuel shuffle seed startingStacks iters).run.expect fun o =>
        o.elim 0 fun table => (table.entryMut J).regret a) =
      (session regretRule (handGame e fuel shuffle seed startingStacks)
        (List.finRange startingStacks.length) (tallies .empty) iters).expect
          fun table => (table J).regret a := fun a =>
    hyields.expect (fun table => (table J).regret a) 0
  have hregret : ∀ a, ((train e fuel shuffle seed startingStacks iters).run.expect fun o =>
        o.elim 0 fun table => (table.entryMut J).regret a) =
      accumulatedRegret e fuel shuffle seed startingStacks iters J a := by
    intro a
    rw [htrained, expect_session_regret separated_handGame (List.nodup_finRange _)]
    refine (zero_add _).trans (Finset.sum_congr rfl fun t _ => ?_)
    rw [← Fin.sum_univ_def]
    refine Finset.sum_congr rfl fun i _ => ?_
    exact ((hbefore t i).expect (fun table => GameForm.regretOf regretRule table i J a _) 0).symm
  refine ⟨hyields.surely_isSome, fun t i => (hbefore t i).surely_isSome, hregret, ?_⟩
  simp only [← hregret, htrained]
  exact potential_expect_le ((surely_potential_le hrules hblinds hblind hseats hchips iters).mono
    fun table h => h J)

/-- Three iterations with twenty-five big blinds, at the first decision of the first hand. -/
theorem train_accumulates_regret_fifty :
    ⟨.preflop, 1, 12, []⟩ ∈
      (handGame smallGame 400 (fun _ => Card.mk) 7 [50, 50] 0).infosOf (· = 1) ∧
    ((train smallGame 400 (fun _ => Card.mk) 7 [50, 50] 3).run.Surely fun o => o.isSome) ∧
    (∀ t i, (trainBefore smallGame 400 (fun _ => Card.mk) 7 [50, 50] t i).run.Surely
      fun o => o.isSome) ∧
    (∀ a, ((train smallGame 400 (fun _ => Card.mk) 7 [50, 50] 3).run.expect fun o =>
        o.elim 0 fun table => (table.entryMut ⟨.preflop, 1, 12, []⟩).regret a) =
      accumulatedRegret smallGame 400 (fun _ => Card.mk) 7 [50, 50] 3 ⟨.preflop, 1, 12, []⟩ a) ∧
    ∑ a, max (accumulatedRegret smallGame 400 (fun _ => Card.mk) 7 [50, 50] 3
      ⟨.preflop, 1, 12, []⟩ a) 0 ^ 2 ≤ 4 * (([50, 50] : List ℕ).sum : ℚ) ^ 2 * (3 : ℕ) := by
  refine ⟨?_, train_accumulates_regret rfl (by decide) (by decide) rfl (by decide) (by decide)
    (fun _ => Card.mk) 7 3 ⟨.preflop, 1, 12, []⟩⟩
  obtain ⟨root, hroot, -, hcompletes, -⟩ := @exists_hand smallGame [50, 50] 1 2 rfl (by decide)
    (by decide) rfl (by decide) (iterationSeed 7 0) Card.mk 0
  have hseen : ((GameTree.new smallGame 0 (iterationSeed 7 0) Card.mk [50, 50] 0 none).2.bind
      fun root => (root.observationOwned smallGame).map fun obs =>
        decide (obs.position = 1 ∧
          InfoSet.fromObservation obs [] = ⟨.preflop, 1, 12, []⟩)) = some true := by
    decide +kernel
  rw [hroot, Option.bind_some] at hseen
  obtain ⟨obs, hobs, hseen⟩ := Option.map_eq_some_iff.mp hseen
  obtain ⟨hposition, hinfo⟩ := of_decide_eq_true hseen
  obtain ⟨d, hd, hobs'⟩ := observationOwned_eq_some_iff.mp hobs
  have hseat : d.seat = 1 := Fin.ext ((Decision.observation_position hobs').symm.trans hposition)
  obtain ⟨fuel, hlegal, hgame, -⟩ :=
    abstractGame_of_completes (hcompletes 400 (by decide)) hd hobs []
  rw [handGame_of_root hroot, hgame]
  exact Or.inl ⟨hinfo.symm, hseat⟩

/-! ## Plans before the flop -/

/-- There is a number such that, whatever is dealt and however the decks are shuffled, no plan
before the flop gains more than so many times twice all chips for the square root of the number of
iterations: on average over the iterations, the gain goes to zero. -/
theorem train_has_no_regret (hrules : e.rules = .noLimitHoldem smallBlind bigBlind)
    (hblinds : smallBlind ≤ bigBlind) (hblind : 0 < bigBlind) (hseats : startingStacks.length = 2)
    (hchips : ∀ stack ∈ startingStacks, 0 < stack) :
    ∃ count : ℕ, ∀ fuel, handBound startingStacks < fuel →
      ∀ (shuffle : ℕ → Fin 52 → Card) (seed iters position : ℕ)
        (plan : InfoSet → AbstractAction → ℚ), IsPlan plan →
        (∀ t < iters, ∀ i, (handGame e fuel shuffle seed startingStacks t).Permits i
          (Preflop position) plan) →
          max (∑ t ∈ Finset.range iters, ∑ i,
              preflopGain e fuel shuffle seed startingStacks position plan t i) 0 ^ 2 ≤
            (2 * count * (startingStacks.sum : ℚ)) ^ 2 * iters := by
  classical
  let infos := (infos_finite (handBound startingStacks)).toFinset
  refine ⟨infos.card, fun fuel hfuel shuffle seed iters position plan hplan hpermits => ?_⟩
  let S := infos.filter (Preflop position)
  have hgain := session_no_regret (S := S) separated_handGame (List.nodup_finRange _) hplan
    (fun J hJ => (Finset.mem_filter.mp hJ).2)
    (fun t _ i _ => recalls_handGame hrules hblinds hblind hseats hchips t position i)
    (fun t ht i _ => hpermits t ht i)
    (fun t _ i _ J hJ hK => Finset.mem_filter.mpr ⟨(infos_finite _).mem_toFinset.mpr
      ⟨hK.1, covered_handGame hrules hblinds hblind hseats hchips hJ⟩, hK⟩)
    (fun _ _ => rfl) (surely_potential_le hrules hblinds hblind hseats hchips iters)
  have hsum : ∑ t ∈ Finset.range iters, ∑ i,
        preflopGain e fuel shuffle seed startingStacks position plan t i =
      ∑ t ∈ Finset.range iters, ((List.finRange startingStacks.length).map fun i =>
        planGain regretRule (handGame e fuel shuffle seed startingStacks)
          (List.finRange startingStacks.length) (tallies .empty) (Preflop position) plan t
            i).sum := by
    refine Finset.sum_congr rfl fun t _ => ?_
    rw [← Fin.sum_univ_def]
    refine Finset.sum_congr rfl fun i _ => ?_
    exact (trainBefore_yields hrules hblinds hblind hseats hchips hfuel t i).expect
      (fun table => GameForm.deviate regretRule table i (Preflop position) plan _ -
        GameForm.value regretRule table i _) 0
  have hcard : (S.card : ℚ) ≤ infos.card := Nat.cast_le.mpr (Finset.card_filter_le _ _)
  rw [hsum]
  calc _ ≤ (S.card : ℚ) ^ 2 * (4 * (startingStacks.sum : ℚ) ^ 2 * iters) := hgain
    _ ≤ (infos.card : ℚ) ^ 2 * (4 * (startingStacks.sum : ℚ) ^ 2 * iters) :=
        mul_le_mul_of_nonneg_right (pow_le_pow_left₀ (Nat.cast_nonneg _) hcard 2) (by positivity)
    _ = (2 * infos.card * (startingStacks.sum : ℚ)) ^ 2 * iters := by ring

/-- The plan to go all-in. -/
def jam (_ : InfoSet) (a : AbstractAction) : ℚ := if a = .allIn then 1 else 0

theorem isPlan_jam : IsPlan jam where
  nonneg J a := by
    rw [jam]
    split <;> norm_num
  total J := by simp [jam]

/-- Every hand permits to go all-in. -/
theorem permits_jam (hrules : e.rules = .noLimitHoldem smallBlind bigBlind)
    (hblinds : smallBlind ≤ bigBlind) (hblind : 0 < bigBlind) (hseats : startingStacks.length = 2)
    (hchips : ∀ stack ∈ startingStacks, 0 < stack) (fuel : ℕ) (shuffle : ℕ → Fin 52 → Card)
    (seed t position : ℕ) (i : Fin startingStacks.length) :
    (handGame e fuel shuffle seed startingStacks t).Permits i (Preflop position) jam := by
  obtain ⟨root, hroot, horderly, -⟩ := exists_hand hrules hblinds hblind hseats hchips
    (iterationSeed seed t) (shuffle (iterationSeed seed t)) (t % 2)
  rw [handGame_of_root hroot]
  intro line J menu next hwalk _ a ha
  obtain ⟨tree, obs, hpath, hobs, hmenu⟩ := path_of_walk hwalk
  obtain ⟨d, hd, hobs⟩ := observationOwned_eq_some_iff.mp hobs
  have hall : .allIn ∈ menu.actions := by
    rw [hmenu, mem_legalAbstractActions_iff, Decision.observation_legalActions hobs]
    exact (orderlyTree_of_descends horderly (by rwa [hrules]) hpath d hd).toPlaying.stack_pos
  exact if_neg fun heq : a = .allIn => ha (heq ▸ hall)

/-- To go all-in before the flop, over three iterations with twenty-five big blinds. -/
theorem train_has_no_regret_fifty :
    ∃ count : ℕ, max (∑ t ∈ Finset.range 3, ∑ i : Fin 2,
        preflopGain smallGame 400 (fun _ => Card.mk) 7 [50, 50] 0 jam t i) 0 ^ 2 ≤
      (2 * count * (([50, 50] : List ℕ).sum : ℚ)) ^ 2 * (3 : ℕ) := by
  obtain ⟨count, hcount⟩ := @train_has_no_regret smallGame [50, 50] 1 2 rfl (by decide) (by decide)
    rfl (by decide)
  exact ⟨count, hcount 400 (by decide) (fun _ => Card.mk) 7 3 0 jam isPlan_jam fun t _ i =>
    permits_jam rfl (by decide) (by decide) rfl (by decide) 400 _ 7 t 0 i⟩

end VibePoker.Trainer
