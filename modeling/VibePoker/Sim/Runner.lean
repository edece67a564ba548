import VibePoker.Game.Settlement
import VibePoker.Game.Simulation

/-!
# The simulation runner

`SimRunner` plays one hand after the other on an engine. Stacks start afresh in
each hand or carry over, and the deltas of the hands are added up. The runner's
generator and its agents are outside: a hand is given by the seed the generator
draws and by the answers the agents give. `shuffle` is the order in which
`Deck::new` deals for a seed.

## Main definitions

* `SimRunner` — the state of a runner
* `SimRunner.play` — a number of hands in a row
* `SimState.seeds`, `SimState.results` — the seeds of the hands of a run, and their results

## Main results

* `sum_applyResultToStacks` — settled stacks change by the reported deltas
* `SimState.seeds_sequential` — sequential seeds are counted up
* `SimState.deltas_of_play` — a run adds up the deltas of its hands
-/

namespace VibePoker.Sim

open VibePoker.Core VibePoker.CS VibePoker.Game VibePoker.Math

/-! ## Configuration -/

/-- How deck seeds are generated. -/
inductive SeedMode
  | random
  | sequential (base : ℕ)
deriving DecidableEq, Repr

/-- What happens to stacks between hands. -/
inductive StackPolicy
  | reset
  | persistent
deriving DecidableEq, Repr

structure SimConfig where
  seed : SeedMode
  stackPolicy : StackPolicy
deriving DecidableEq, Repr

def SimConfig.standard : SimConfig := ⟨.random, .reset⟩

def SimConfig.deterministic (baseSeed : ℕ) : SimConfig := ⟨.sequential baseSeed, .reset⟩

/-- The seed of hand `handIdx`, when the generator would draw `drawn`. -/
def SeedMode.deckSeed (mode : SeedMode) (handIdx drawn : ℕ) : ℕ :=
  match mode with
  | .random => drawn
  | .sequential base => base + handIdx

/-! ## Settling a hand -/

/-- Add the deltas of a hand to the totals. -/
def applyResultToDeltas (result : HandResult) (deltas : List ℤ) : List ℤ :=
  result.seats.foldl (fun deltas o => deltas.set o.seat (deltas.getD o.seat 0 + o.chipDelta)) deltas

/-- Add the deltas of a hand to the stacks. -/
def applyResultToStacks (result : HandResult) (seatStacks : List ℕ) : List ℕ :=
  result.seats.foldl
    (fun seatStacks o =>
      seatStacks.set o.seat (max ((seatStacks.getD o.seat 0 : ℤ) + o.chipDelta) 0).toNat) seatStacks

/-- The next seat with chips. -/
def nextDealer (current : ℕ) (seatStacks : List ℕ) : ℕ :=
  let next := (ringAfter seatStacks.length current).find? fun i => 0 < seatStacks.get i
  (next.map Fin.val).getD current

/-! ## The runner -/

structure SimRunner where
  engine : Engine
  shuffle : ℕ → Fin 52 → Card
  seatStacks : List ℕ
  startingStacks : List ℕ
  dealer : ℕ
  nextHandId : ℕ

/-- A runner before its first hand. -/
def SimRunner.new (engine : Engine) (shuffle : ℕ → Fin 52 → Card) (seatStacks : List ℕ) :
    SimRunner :=
  ⟨engine, shuffle, seatStacks, seatStacks, 0, 1⟩

def SimRunner.resetStacks (r : SimRunner) : SimRunner := { r with seatStacks := r.startingStacks }

/-- What one hand gets from the generator and the agents. -/
structure SimInput where
  drawn : ℕ
  answers : List Action

/-- The state of the loop of `run`. -/
structure SimState where
  runner : SimRunner
  handIdx : ℕ
  deltas : List ℤ

/-- The stacks a hand is played with. -/
def SimState.handStacks (s : SimState) (config : SimConfig) : List ℕ :=
  match config.stackPolicy with
  | .reset => s.runner.startingStacks
  | .persistent => s.runner.seatStacks

/-- The seed of the next hand. -/
def SimState.deckSeed (s : SimState) (config : SimConfig) (input : SimInput) : ℕ :=
  config.seed.deckSeed s.handIdx input.drawn

/-- The next hand, on the engine. -/
def SimState.hand (s : SimState) (config : SimConfig) (input : SimInput) :
    List (Output (s.handStacks config).length) × HandOutcome (s.handStacks config).length :=
  runHand s.runner.engine s.runner.nextHandId (s.deckSeed config input)
    (s.runner.shuffle (s.deckSeed config input)) (s.handStacks config) s.runner.dealer none
    input.answers

/-- The loop state after a hand with this result. -/
def SimState.settle (s : SimState) (config : SimConfig) (result : HandResult) : SimState :=
  let seatStacks := match config.stackPolicy with
    | .reset => s.runner.seatStacks
    | .persistent => applyResultToStacks result s.runner.seatStacks
  { runner := { s.runner with
      seatStacks := seatStacks
      dealer := nextDealer s.runner.dealer seatStacks
      nextHandId := s.runner.nextHandId + 1 }
    handIdx := s.handIdx + 1
    deltas := applyResultToDeltas result s.deltas }

/-- One pass of the loop of `run`; `none` if the hand does not finish. -/
def SimState.playHand (config : SimConfig) (s : SimState) (input : SimInput) : Option SimState :=
  match (s.hand config input).2 with
  | .finished result _ _ _ => some (s.settle config result)
  | _ => none

/-- The loop state before the first hand of a run. -/
def SimRunner.start (r : SimRunner) : SimState := ⟨r, 0, List.replicate r.seatStacks.length 0⟩

/-- The loop of `run`. -/
def SimRunner.play (r : SimRunner) (config : SimConfig) (inputs : List SimInput) :
    Option SimState :=
  inputs.foldlM (SimState.playHand config) r.start

structure SimResult where
  handsPlayed : ℕ
  chipDeltas : List ℤ
  finalStacks : List ℕ
deriving DecidableEq, Repr

/-- Play a hand for each input. -/
def SimRunner.run (r : SimRunner) (config : SimConfig) (inputs : List SimInput) :
    Option SimResult :=
  (r.play config inputs).map fun s => ⟨inputs.length, s.deltas, s.runner.seatStacks⟩

/-- A hand that finished is settled. -/
theorem SimState.playHand_eq_some {config : SimConfig} {s s' : SimState} {input : SimInput}
    (h : s.playHand config input = some s') :
    ∃ result players chipDeltas rest,
      (s.hand config input).2 = .finished result players chipDeltas rest ∧
        s' = s.settle config result := by
  rw [SimState.playHand] at h
  split at h
  case h_1 result players chipDeltas rest hfinished =>
    exact ⟨result, players, chipDeltas, rest, hfinished, (Option.some.inj h).symm⟩
  case h_2 => cases h

/-- A run that gets through has got through its first hand. -/
theorem SimState.foldlM_cons_eq_some {config : SimConfig} {s s' : SimState} {input : SimInput}
    {inputs : List SimInput}
    (h : (input :: inputs).foldlM (SimState.playHand config) s = some s') :
    ∃ s₁, s.playHand config input = some s₁ ∧
      inputs.foldlM (SimState.playHand config) s₁ = some s' := by
  rw [List.foldlM_cons] at h
  exact Option.bind_eq_some_iff.mp h

/-- A property of every hand of a run from `s`: of the state it is played in and
its input. -/
def SimState.EveryHand (config : SimConfig) (s : SimState) (inputs : List SimInput)
    (P : SimState → SimInput → Prop) : Prop :=
  ∀ before input after s', inputs = before ++ input :: after →
    before.foldlM (SimState.playHand config) s = some s' → P s' input

theorem SimState.EveryHand.head {config : SimConfig} {s : SimState} {input : SimInput}
    {inputs : List SimInput} {P : SimState → SimInput → Prop}
    (h : s.EveryHand config (input :: inputs) P) : P s input :=
  h [] input inputs s rfl rfl

theorem SimState.EveryHand.tail {config : SimConfig} {s s' : SimState} {input : SimInput}
    {inputs : List SimInput} {P : SimState → SimInput → Prop}
    (h : s.EveryHand config (input :: inputs) P) (hplay : s.playHand config input = some s') :
    s'.EveryHand config inputs P := by
  rintro before input' after s'' rfl hbefore
  exact h (input :: before) input' after s'' rfl (by simp [List.foldlM_cons, hplay, hbefore])

theorem SimState.everyHand_cons {config : SimConfig} {s : SimState} {input : SimInput}
    {inputs : List SimInput} {P : SimState → SimInput → Prop} (hhead : P s input)
    (htail : ∀ s', s.playHand config input = some s' → s'.EveryHand config inputs P) :
    s.EveryHand config (input :: inputs) P := by
  intro before input' after s' heq hbefore
  cases before with
  | nil =>
    obtain ⟨rfl, -⟩ := List.cons.inj heq
    obtain rfl : s = s' := by simpa using hbefore
    exact hhead
  | cons first before =>
    obtain ⟨rfl, rfl⟩ := List.cons.inj heq
    obtain ⟨s₁, hplay, hrest⟩ := SimState.foldlM_cons_eq_some hbefore
    exact htail s₁ hplay before input' after s' rfl hrest

/-- A property that each good hand keeps holds in a run of good hands before each
hand, and at the end. -/
theorem SimState.run_invariant {config : SimConfig} {Good : SimState → SimInput → Prop}
    (Inv : SimState → Prop)
    (hkeep : ∀ s input s', Inv s → Good s input → s.playHand config input = some s' → Inv s')
    {inputs : List SimInput} {s : SimState} (hinit : Inv s)
    (hgood : s.EveryHand config inputs Good) :
    s.EveryHand config inputs (fun s' input => Inv s' ∧ Good s' input) ∧
      ∀ s', inputs.foldlM (SimState.playHand config) s = some s' → Inv s' := by
  induction inputs generalizing s with
  | nil =>
    refine ⟨fun before input after _ heq => by simp at heq, fun s' hend => ?_⟩
    obtain rfl : s = s' := by simpa using hend
    exact hinit
  | cons input inputs ih =>
    have hnext : ∀ s', s.playHand config input = some s' → _ := fun s' hplay =>
      ih (hkeep s input s' hinit hgood.head hplay) (hgood.tail hplay)
    refine ⟨SimState.everyHand_cons ⟨hinit, hgood.head⟩ fun s' hplay => (hnext s' hplay).1,
      fun s' hend => ?_⟩
    obtain ⟨s₁, hplay, hrest⟩ := SimState.foldlM_cons_eq_some hend
    exact (hnext s₁ hplay).2 s' hrest

/-! ## Stacks and deltas -/

theorem cast_sum_set (seatStacks : List ℕ) {seat : ℕ} (h : seat < seatStacks.length) (stack : ℕ) :
    ((seatStacks.set seat stack).sum : ℤ) = seatStacks.sum - seatStacks.getD seat 0 + stack := by
  have hset := List.sum_set' (seatStacks.map ((↑) : ℕ → ℤ)) seat (stack : ℤ)
  rw [← List.map_set, dif_pos (by simpa using h)] at hset
  have hget : seatStacks.getD seat 0 = seatStacks[seat] := by
    rw [List.getD_eq_getElem?_getD, List.getElem?_eq_getElem h, Option.getD_some]
  rw [Nat.cast_list_sum, Nat.cast_list_sum, hset, List.getElem_map, hget]
  omega

/-- If the seats can pay what they lose, settled stacks change by the deltas. -/
theorem sum_applyResultToStacks {result : HandResult} {seatStacks : List ℕ}
    (hnodup : (result.seats.map SeatOutcome.seat).Nodup)
    (hpays : ∀ o ∈ result.seats, o.seat < seatStacks.length ∧
      0 ≤ (seatStacks.getD o.seat 0 : ℤ) + o.chipDelta) :
    ((applyResultToStacks result seatStacks).sum : ℤ) =
      seatStacks.sum + (result.seats.map SeatOutcome.chipDelta).sum := by
  obtain ⟨handId, board, seats⟩ := result
  simp only [applyResultToStacks] at hnodup hpays ⊢
  induction seats generalizing seatStacks with
  | nil => simp
  | cons o seats ih =>
    rw [List.map_cons, List.nodup_cons] at hnodup
    obtain ⟨hseat, hpay⟩ := hpays o List.mem_cons_self
    have hothers : ∀ o' ∈ seats, o'.seat ≠ o.seat := fun o' ho' heq =>
      hnodup.1 (heq ▸ List.mem_map_of_mem ho')
    rw [List.foldl_cons, ih hnodup.2, cast_sum_set _ hseat, max_eq_left hpay,
      Int.toNat_of_nonneg hpay, List.map_cons, List.sum_cons]
    · omega
    · intro o' ho'
      obtain ⟨hseat', hpay'⟩ := hpays o' (List.mem_cons_of_mem _ ho')
      refine ⟨by simpa using hseat', ?_⟩
      simpa [List.getD_eq_getElem?_getD, List.getElem?_set_ne (hothers o' ho').symm] using hpay'

/-! ## The hands of a run -/

/-- The seeds of the hands that a run starts. -/
def SimState.seeds (config : SimConfig) : SimState → List SimInput → List ℕ
  | _, [] => []
  | s, input :: inputs =>
    s.deckSeed config input ::
      match s.playHand config input with
      | some s' => s'.seeds config inputs
      | none => []

/-- The results of the hands that a run finishes. -/
def SimState.results (config : SimConfig) : SimState → List SimInput → List HandResult
  | _, [] => []
  | s, input :: inputs =>
    match (s.hand config input).2 with
    | .finished result _ _ _ => result :: (s.settle config result).results config inputs
    | _ => []

/-- What a hand changes the chips of a seat by. -/
def seatDelta (seat : ℕ) (result : HandResult) : ℤ :=
  ((result.seats.filter fun o => o.seat = seat).map SeatOutcome.chipDelta).sum

section Hands

variable {config : SimConfig} {inputs : List SimInput} {s s' : SimState}

theorem SimState.length_seeds (h : inputs.foldlM (SimState.playHand config) s = some s') :
    (s.seeds config inputs).length = inputs.length := by
  induction inputs generalizing s with
  | nil => rfl
  | cons input inputs ih =>
    obtain ⟨s₁, hplay, hrest⟩ := SimState.foldlM_cons_eq_some h
    rw [SimState.seeds, hplay, List.length_cons, List.length_cons, ih hrest]

theorem SimState.length_results (h : inputs.foldlM (SimState.playHand config) s = some s') :
    (s.results config inputs).length = inputs.length := by
  induction inputs generalizing s with
  | nil => rfl
  | cons input inputs ih =>
    obtain ⟨s₁, hplay, hrest⟩ := SimState.foldlM_cons_eq_some h
    obtain ⟨result, _, _, _, hfinished, rfl⟩ := SimState.playHand_eq_some hplay
    rw [SimState.results, hfinished, List.length_cons, List.length_cons, ih hrest]

/-- Sequential seeds are counted up from the base, as far as the run gets. -/
theorem SimState.seeds_prefix {base : ℕ} (hseed : config.seed = .sequential base) :
    s.seeds config inputs <+: List.range' (base + s.handIdx) inputs.length := by
  induction inputs generalizing s with
  | nil => exact List.nil_prefix
  | cons input inputs ih =>
    rw [SimState.seeds, SimState.deckSeed, hseed, SeedMode.deckSeed, List.length_cons,
      List.range'_succ, List.cons_prefix_cons]
    refine ⟨rfl, ?_⟩
    cases hplay : s.playHand config input with
    | none => exact List.nil_prefix
    | some s₁ =>
      obtain ⟨result, _, _, _, -, rfl⟩ := SimState.playHand_eq_some hplay
      exact ih

/-- A run of sequential seeds uses one seed after the other. -/
theorem SimState.seeds_sequential {base : ℕ} (hseed : config.seed = .sequential base)
    (h : inputs.foldlM (SimState.playHand config) s = some s') :
    s.seeds config inputs = List.range' (base + s.handIdx) inputs.length := by
  apply (SimState.seeds_prefix hseed).eq_of_length
  rw [SimState.length_seeds h, List.length_range']

theorem length_applyResultToDeltas (result : HandResult) (deltas : List ℤ) :
    (applyResultToDeltas result deltas).length = deltas.length := by
  rw [applyResultToDeltas]
  induction result.seats generalizing deltas with
  | nil => rfl
  | cons o seats ih => rw [List.foldl_cons, ih, List.length_set]

/-- The totals of a seat change by what the hand changes its chips by. -/
theorem getD_applyResultToDeltas {result : HandResult} {deltas : List ℤ} {i : ℕ}
    (hi : i < deltas.length) :
    (applyResultToDeltas result deltas).getD i 0 = deltas.getD i 0 + seatDelta i result := by
  rw [applyResultToDeltas, seatDelta]
  induction result.seats generalizing deltas with
  | nil => simp
  | cons o seats ih =>
    rw [List.foldl_cons, ih (by rwa [List.length_set]), List.filter_cons]
    by_cases ho : o.seat = i
    · subst ho
      simp [List.getD_eq_getElem?_getD, List.getElem?_set_self hi, add_assoc]
    · simp [List.getD_eq_getElem?_getD, List.getElem?_set_ne ho, ho]

/-- A run adds up the deltas of its hands. -/
theorem SimState.deltas_of_play (h : inputs.foldlM (SimState.playHand config) s = some s') :
    s'.deltas.length = s.deltas.length ∧ ∀ i < s.deltas.length, s'.deltas.getD i 0 =
      s.deltas.getD i 0 + ((s.results config inputs).map (seatDelta i)).sum := by
  induction inputs generalizing s with
  | nil =>
    obtain rfl := Option.some.inj h
    exact ⟨rfl, fun i _ => (add_zero _).symm⟩
  | cons input inputs ih =>
    obtain ⟨s₁, hplay, hrest⟩ := SimState.foldlM_cons_eq_some h
    obtain ⟨result, _, _, _, hfinished, rfl⟩ := SimState.playHand_eq_some hplay
    have hlen := length_applyResultToDeltas result s.deltas
    obtain ⟨hlen', hdeltas⟩ := ih hrest
    refine ⟨hlen'.trans hlen, fun i hi => ?_⟩
    rw [hdeltas i (hi.trans_eq hlen.symm), SimState.settle, getD_applyResultToDeltas hi,
      SimState.results, hfinished, List.map_cons, List.sum_cons, add_assoc]
    rfl

end Hands

end VibePoker.Sim
