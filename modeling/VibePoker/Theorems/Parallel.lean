import VibePoker.Sim.Parallel
import VibePoker.Theorems.LoneContender

/-!
# Parallel runs

With sequential seeds, the threads of a parallel run go through the seeds that a single
runner goes through. Each thread has its own block of them, and the blocks lie one behind
the other, also when threads remain idle. What the threads report adds up to the hands
they have played, and it does so in any order.

## Main definitions

* `CoversSeeds` — the threads use each seed of a range once
* `ParallelExact` — seeds, hands and deltas of a parallel run

## Main results

* `parallel_exact` — a run that finishes is so
* `seeds_disjoint` — no two threads use a seed, whether or not they finish
-/

namespace VibePoker.Sim

open VibePoker.Core VibePoker.CS VibePoker.Game VibePoker.Math

/-! ## The statement -/

/-- The seeds of a number of threads are `base .. base + total`. -/
structure CoversSeeds (seeds : ℕ → List ℕ) (threads base total : ℕ) : Prop where
  /-- One thread behind the other, without gaps and repetitions. -/
  inOrder : (List.range threads).flatMap seeds = List.range' base total
  /-- Each of them is used by one thread, for one of its hands. -/
  once : ∀ seed, base ≤ seed → seed < base + total →
    ∃! t, t < threads ∧ (seeds t).count seed = 1

/-- A parallel run whose threads returned `results`. -/
structure ParallelExact (p : ParallelRun) (base : ℕ) (results : List SimResult) : Prop where
  seeds : CoversSeeds p.seeds p.threadCount base p.handsTotal
  /-- The seeds are counted up from a start within the range: if its end is a `u64`, then
  so are all sums on the way. -/
  fits : ∀ t < p.threadCount, ∃ start, (p.configOf t).seed = .sequential start ∧
    base ≤ start ∧ start + p.hands t ≤ base + p.handsTotal
  hands : ((List.range p.threadCount).map p.hands).sum = p.handsTotal
  played : ∀ t < p.threadCount, (p.seeds t).length = p.hands t ∧
    (p.handResults t).length = p.hands t
  returns : p.runParallel = SimResult.merge results
  /-- In any order, merging gives the sums over all hands. -/
  merged : ∀ order, order.Perm results → ∃ r, SimResult.merge order = some r ∧
    r.handsPlayed = p.handsTotal ∧
      r.chipDeltas = (List.range p.seatStacks.length).map fun seat =>
        (p.allResults.map (seatDelta seat)).sum

/-! ## Seeds -/

variable {p : ParallelRun} {base : ℕ}

/-- No two threads use a seed, whether or not they finish. -/
theorem seeds_disjoint (hseed : p.config.seed = .sequential base) {t u seed : ℕ}
    (ht : seed ∈ p.seeds t) (hu : seed ∈ p.seeds u) : t = u := by
  have hblock : ∀ v, seed ∈ p.seeds v → seed ∈ block p.hands base v := by
    intro v hv
    -- a thread that panics has used the first seeds of its block
    have hprefix : p.seeds v <+: List.range' _ (p.inputsOf v).length :=
      SimState.seeds_prefix (p.seed_configOf hseed v)
    rw [p.length_inputsOf] at hprefix
    exact hprefix.subset hv
  exact eq_of_mem_block (hblock t ht) (hblock u hu)

theorem coversSeeds_of_blocks (h : ∀ t < p.threadCount, p.seeds t = block p.hands base t) :
    CoversSeeds p.seeds p.threadCount base p.handsTotal := by
  have hcount : ∀ t < p.threadCount, ∀ seed,
      (p.seeds t).count seed = 1 ↔ seed ∈ block p.hands base t := by
    intro t ht seed
    rw [h t ht]
    constructor
    · intro hone
      exact List.count_pos_iff.mp (hone ▸ one_pos)
    · exact List.count_eq_one_of_mem (nodup_block p.hands base t)
  constructor
  · have hblocks : (List.range p.threadCount).flatMap p.seeds =
        (List.range p.threadCount).flatMap (block p.hands base) :=
      List.flatMap_congr fun t ht => h t (List.mem_range.mp ht)
    rw [hblocks, flatMap_blocks, p.blockStart_hands]
  · intro seed hlow hhigh
    rw [← p.blockStart_hands] at hhigh
    obtain ⟨t, ⟨ht, hmem⟩, hunique⟩ := existsUnique_block hlow hhigh
    refine ⟨t, ⟨ht, (hcount t ht seed).mpr hmem⟩, ?_⟩
    rintro u ⟨hu, hone⟩
    exact hunique u ⟨hu, (hcount u hu seed).mp hone⟩

/-! ## Parallel runs -/

/-- A parallel run that finishes covers the seeds, and its results add up in any order. -/
theorem parallel_exact {results : List SimResult} (hseed : p.config.seed = .sequential base)
    (h : p.results = some results) : ParallelExact p base results where
  seeds := by
    apply coversSeeds_of_blocks
    intro t ht
    obtain ⟨r, hr⟩ := ParallelRun.result_of_lt h ht
    exact ParallelRun.seeds_eq_block hseed hr
  fits := by
    intro t ht
    refine ⟨_, p.seed_configOf hseed t, Nat.le_add_right _ _, ?_⟩
    -- the last seed of a thread lies below the end of its block, hence below that of the last
    have hle := @blockStart_succ_le p.hands t p.threadCount ht
    rw [blockStart_succ, p.blockStart_hands] at hle
    omega
  hands := p.blockStart_hands
  played := by
    intro t ht
    obtain ⟨r, hr⟩ := ParallelRun.result_of_lt h ht
    refine ⟨?_, ParallelRun.length_handResults hr⟩
    rw [ParallelRun.seeds_eq_block hseed hr]
    exact List.length_range'
  returns := by
    rw [ParallelRun.runParallel, h]
    rfl
  merged := by
    intro order horder
    have hne : order ≠ [] := fun hnil =>
      ParallelRun.results_ne_nil h (List.nil_perm.mp (hnil ▸ horder))
    obtain ⟨r, hr, hhands, hdeltas⟩ := SimResult.merge_eq hne fun r hr =>
      ParallelRun.length_chipDeltas h (horder.mem_iff.mp hr)
    refine ⟨r, hr, ?_, ?_⟩
    · rw [hhands, (horder.map _).sum_eq]
      exact ParallelRun.sum_handsPlayed h
    · rw [hdeltas]
      apply List.map_congr_left
      intro seat hseat
      rw [← ParallelRun.totalDelta_results h (List.mem_range.mp hseat)]
      exact (horder.map _).sum_eq

/-- Two hands on three threads, of which one remains idle. -/
def idleThread : ParallelRun where
  handsTotal := 2
  threads := 3
  seatStacks := [100, 100]
  engine _ := smallEngine
  shuffle _ i := ⟨i⟩
  inputs _ _ := ⟨0, [.fold]⟩
  config := .deterministic 7

theorem parallel_exact_idleThread :
    ∃ results, idleThread.results = some results ∧ ParallelExact idleThread 7 results := by
  have hresults : idleThread.results =
      some [⟨1, [1, -1], [100, 100]⟩, ⟨1, [1, -1], [100, 100]⟩, ⟨0, [0, 0], [100, 100]⟩] := by
    decide +kernel
  exact ⟨_, hresults, parallel_exact rfl hresults⟩

end VibePoker.Sim
