import VibePoker.CS.Checked
import VibePoker.Math.Blocks
import VibePoker.Sim.Runner
import Mathlib.Data.List.GetD

/-!
# The parallel runner

`run_parallel` shares a number of hands out to threads. Each thread plays its hands on a
runner of its own, and the results of the threads are merged. The threads share nothing,
so it does not matter how they are interleaved: a thread is given by the engine and the
inputs it gets. An index out of bounds and a thread that does not finish are `none`.

## Main definitions

* `threadConfig` — the configuration of a thread
* `SimResult.merge` — the results of all threads
* `ParallelRun.runParallel` — a parallel run

## Main results

* `SimResult.merge_eq` — merging adds up the results, seat by seat
* `ParallelRun.seeds_eq_block` — the seeds of a thread are a block of the range
-/

namespace VibePoker.Sim

open VibePoker.Core VibePoker.CS VibePoker.Game VibePoker.Math

/-! ## Sharing out -/

/-- The number of hands of a thread. -/
def threadHands (baseHands remainder threadIdx : ℕ) : ℕ :=
  baseHands + if threadIdx < remainder then 1 else 0

/-- The configuration of a thread. -/
def threadConfig (base : SimConfig) (threadIdx baseHands remainder : ℕ) : SimConfig :=
  let seed := match base.seed with
    | .random => .random
    | .sequential baseSeed =>
      -- behind all hands of the threads before it
      let offset := ((List.range threadIdx).map (threadHands baseHands remainder)).sum
      .sequential (baseSeed + offset)
  { seed := seed, stackPolicy := base.stackPolicy }

/-! ## Merging -/

/-- `deltas[i] += d`. -/
def addAt (deltas : List ℤ) (i : ℕ) (d : ℤ) : Option (List ℤ) :=
  if i < deltas.length then some (deltas.set i (deltas.getD i 0 + d)) else none

/-- The inner loop of `merge`. -/
def addDeltas (deltas chipDeltas : List ℤ) : Option (List ℤ) :=
  chipDeltas.zipIdx.foldlM (fun deltas entry => addAt deltas entry.2 entry.1) deltas

/-- Merge the results of the workers. The final stacks are those of the last one. -/
def SimResult.merge (results : List SimResult) : Option SimResult := do
  let first ← results.head?
  let deltas ← results.foldlM (fun deltas r => addDeltas deltas r.chipDeltas)
    (List.replicate first.chipDeltas.length 0)
  let last ← results.getLast?
  return ⟨(results.map SimResult.handsPlayed).sum, deltas, last.finalStacks⟩

/-- What the workers change the chips of a seat by. -/
def totalDelta (results : List SimResult) (seat : ℕ) : ℤ :=
  (results.map fun r => r.chipDeltas.getD seat 0).sum

theorem addAt_append (before after : List ℤ) (x d : ℤ) :
    addAt (before ++ x :: after) before.length d = some (before ++ [x + d] ++ after) := by
  have hlt : before.length < (before ++ x :: after).length := by simp
  rw [addAt, if_pos hlt]
  simp

/-- The inner loop has added the entries it has passed. -/
theorem foldlM_addAt {chipDeltas : List ℤ} {before deltas : List ℤ}
    (h : chipDeltas.length = deltas.length) :
    (chipDeltas.zipIdx before.length).foldlM (fun deltas entry => addAt deltas entry.2 entry.1)
      (before ++ deltas) = some (before ++ List.zipWith (· + ·) deltas chipDeltas) := by
  induction chipDeltas generalizing before deltas with
  | nil =>
    obtain rfl := List.eq_nil_of_length_eq_zero h.symm
    rfl
  | cons d chipDeltas ih =>
    cases deltas with
    | nil => cases h
    | cons x deltas =>
      have hrest := @ih (before ++ [x + d]) deltas (Nat.succ.inj h)
      rw [List.length_append, List.length_singleton] at hrest
      rw [List.zipIdx_cons, List.foldlM_cons, addAt_append, Option.bind_eq_bind,
        Option.bind_some, hrest, List.zipWith_cons_cons, List.append_assoc]
      rfl

theorem addDeltas_eq {deltas chipDeltas : List ℤ} (h : chipDeltas.length = deltas.length) :
    addDeltas deltas chipDeltas = some (List.zipWith (· + ·) deltas chipDeltas) :=
  @foldlM_addAt chipDeltas [] deltas h

/-- The outer loop has added the results it has passed. -/
theorem foldlM_addDeltas {results : List SimResult} {deltas : List ℤ}
    (h : ∀ r ∈ results, r.chipDeltas.length = deltas.length) :
    results.foldlM (fun deltas r => addDeltas deltas r.chipDeltas) deltas =
      some ((List.range deltas.length).map fun i => deltas.getD i 0 + totalDelta results i) := by
  induction results generalizing deltas with
  | nil =>
    rw [List.foldlM_nil]
    congr 1
    apply List.ext_getElem (by simp)
    intro i hi hi'
    simp [totalDelta, hi]
  | cons r results ih =>
    have hfirst := h r List.mem_cons_self
    have hlen : (List.zipWith (· + ·) deltas r.chipDeltas).length = deltas.length := by
      simp [hfirst]
    have hrest : ∀ r' ∈ results, r'.chipDeltas.length =
        (List.zipWith (· + ·) deltas r.chipDeltas).length := fun r' hr' =>
      (h r' (List.mem_cons_of_mem _ hr')).trans hlen.symm
    rw [List.foldlM_cons, addDeltas_eq hfirst, Option.bind_eq_bind, Option.bind_some, ih hrest,
      hlen]
    congr 1
    apply List.map_congr_left
    intro i hi
    have hi : i < deltas.length := List.mem_range.mp hi
    have hi' : i < r.chipDeltas.length := hi.trans_eq hfirst.symm
    simp [totalDelta, hi, hi', add_assoc]

/-- Merging adds up the results, seat by seat. -/
theorem SimResult.merge_eq {results : List SimResult} {n : ℕ} (hne : results ≠ [])
    (h : ∀ r ∈ results, r.chipDeltas.length = n) :
    ∃ r, merge results = some r ∧ r.handsPlayed = (results.map SimResult.handsPlayed).sum ∧
      r.chipDeltas = (List.range n).map (totalDelta results) := by
  have hfirst : (results.head hne).chipDeltas.length = n := h _ (List.head_mem hne)
  have hdeltas := @foldlM_addDeltas results (List.replicate n 0) (by simpa using h)
  have hzero : ∀ i, (List.replicate n (0 : ℤ)).getD i 0 = 0 := by
    intro i
    rw [List.getD_eq_getElem?_getD, List.getElem?_getD_replicate_default_eq]
  rw [List.length_replicate] at hdeltas
  simp only [hzero, zero_add] at hdeltas
  rw [merge, List.head?_eq_some_head hne, List.getLast?_eq_some_getLast hne]
  simp only [Option.bind_eq_bind, Option.bind_some, hfirst, hdeltas]
  exact ⟨_, rfl, rfl, rfl⟩

/-! ## The parallel runner -/

/-- A call of `run_parallel`. Thread `t` gets the engine `engine t`, and `inputs t i` for its
hand `i`. -/
structure ParallelRun where
  handsTotal : ℕ
  threads : ℕ
  seatStacks : List ℕ
  engine : ℕ → Engine
  shuffle : ℕ → Fin 52 → Card
  inputs : ℕ → ℕ → SimInput
  config : SimConfig

namespace ParallelRun

variable (p : ParallelRun)

/-- There is at least one thread. -/
def threadCount : ℕ := max p.threads 1

def baseHands : ℕ := p.handsTotal / p.threadCount

def remainder : ℕ := p.handsTotal % p.threadCount

/-- The number of hands of thread `t`. -/
def hands (t : ℕ) : ℕ := threadHands p.baseHands p.remainder t

/-- The configuration of thread `t`. -/
def configOf (t : ℕ) : SimConfig := threadConfig p.config t p.baseHands p.remainder

/-- The runner of thread `t`. -/
def runner (t : ℕ) : SimRunner := SimRunner.new (p.engine t) p.shuffle p.seatStacks

/-- The inputs of the hands of thread `t`. -/
def inputsOf (t : ℕ) : List SimInput := (List.range (p.hands t)).map (p.inputs t)

/-- The result of thread `t`. -/
def result (t : ℕ) : Option SimResult := (p.runner t).run (p.configOf t) (p.inputsOf t)

/-- The results of the threads, in the order of the handles. -/
def results : Option (List SimResult) := (List.range p.threadCount).mapM p.result

/-- Run all threads and merge their results. -/
def runParallel : Option SimResult := p.results.bind SimResult.merge

/-- The seeds of the hands of thread `t`. -/
def seeds (t : ℕ) : List ℕ := (p.runner t).start.seeds (p.configOf t) (p.inputsOf t)

/-- The results of the hands of thread `t`. -/
def handResults (t : ℕ) : List HandResult :=
  (p.runner t).start.results (p.configOf t) (p.inputsOf t)

/-- The results of all hands. -/
def allResults : List HandResult := (List.range p.threadCount).flatMap p.handResults

theorem threadCount_pos : 0 < p.threadCount := Nat.lt_of_lt_of_le one_pos (le_max_right _ _)

theorem length_inputsOf (t : ℕ) : (p.inputsOf t).length = p.hands t := by
  rw [inputsOf, List.length_map, List.length_range]

/-- The threads have all hands together. -/
theorem blockStart_hands : blockStart p.hands p.threadCount = p.handsTotal :=
  blockStart_evenShare p.handsTotal p.threadCount_pos

/-- The seeds of a thread start behind those of the threads before it. -/
theorem seed_configOf {base : ℕ} (hseed : p.config.seed = .sequential base) (t : ℕ) :
    (p.configOf t).seed = .sequential (base + blockStart p.hands t) := by
  rw [configOf, threadConfig, hseed]
  rfl

variable {p}

/-- A thread that finishes has played its hands and added up their deltas. -/
theorem of_result {t : ℕ} {r : SimResult} (h : p.result t = some r) :
    (∃ s, (p.inputsOf t).foldlM (SimState.playHand (p.configOf t)) (p.runner t).start = some s) ∧
      r.handsPlayed = p.hands t ∧ r.chipDeltas.length = p.seatStacks.length ∧
      ∀ i < p.seatStacks.length,
        r.chipDeltas.getD i 0 = ((p.handResults t).map (seatDelta i)).sum := by
  rw [result, SimRunner.run, Option.map_eq_some_iff] at h
  obtain ⟨s, hplay, rfl⟩ := h
  obtain ⟨hlen, hdeltas⟩ := SimState.deltas_of_play hplay
  have hstart : (p.runner t).start.deltas = List.replicate p.seatStacks.length 0 := rfl
  rw [hstart, List.length_replicate] at hlen hdeltas
  refine ⟨⟨s, hplay⟩, p.length_inputsOf t, hlen, fun i hi => ?_⟩
  rw [hdeltas i hi, List.getD_replicate _ hi, zero_add]
  rfl

/-- The seeds of a thread that finishes are its block of the range. -/
theorem seeds_eq_block {base t : ℕ} {r : SimResult} (hseed : p.config.seed = .sequential base)
    (h : p.result t = some r) : p.seeds t = block p.hands base t := by
  obtain ⟨⟨s, hplay⟩, -⟩ := of_result h
  rw [seeds, SimState.seeds_sequential (p.seed_configOf hseed t) hplay, length_inputsOf]
  rfl

/-- As many hands have a result as are played. -/
theorem length_handResults {t : ℕ} {r : SimResult} (h : p.result t = some r) :
    (p.handResults t).length = p.hands t := by
  obtain ⟨⟨s, hplay⟩, -⟩ := of_result h
  rw [handResults, SimState.length_results hplay, length_inputsOf]

section Results

variable {results : List SimResult} (h : p.results = some results)
include h

theorem result_of_lt {t : ℕ} (ht : t < p.threadCount) : ∃ r, p.result t = some r := by
  have hmem : p.result t ∈ results.map some := by
    rw [map_some_of_mapM h]
    exact List.mem_map_of_mem (List.mem_range.mpr ht)
  obtain ⟨r, -, hr⟩ := List.mem_map.mp hmem
  exact ⟨r, hr.symm⟩

theorem results_ne_nil : results ≠ [] := by
  have hlen := congrArg List.length (map_some_of_mapM h)
  rw [List.length_map, List.length_map, List.length_range] at hlen
  exact List.length_pos_iff.mp (hlen ▸ p.threadCount_pos)

theorem length_chipDeltas {r : SimResult} (hr : r ∈ results) :
    r.chipDeltas.length = p.seatStacks.length := by
  have hmem := List.mem_map_of_mem (f := some) hr
  rw [map_some_of_mapM h] at hmem
  obtain ⟨t, -, ht⟩ := List.mem_map.mp hmem
  exact (of_result ht).2.2.1

theorem sum_handsPlayed : (results.map SimResult.handsPlayed).sum = p.handsTotal := by
  have hhands : results.map SimResult.handsPlayed = (List.range p.threadCount).map p.hands :=
    map_of_mapM (fun _ _ hr => (of_result hr).2.1) h
  rw [hhands]
  exact p.blockStart_hands

/-- The workers change the chips of a seat by what all hands together do. -/
theorem totalDelta_results {i : ℕ} (hi : i < p.seatStacks.length) :
    totalDelta results i = (p.allResults.map (seatDelta i)).sum := by
  have hdeltas : results.map (fun r => r.chipDeltas.getD i 0) =
      (List.range p.threadCount).map fun t => ((p.handResults t).map (seatDelta i)).sum :=
    map_of_mapM (fun _ _ hr => (of_result hr).2.2.2 i hi) h
  rw [totalDelta, hdeltas, allResults, List.map_flatMap, List.flatMap_def, List.sum_flatten, List.map_map]
  rfl

end Results

end ParallelRun

end VibePoker.Sim
