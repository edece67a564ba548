import VibePoker.Game.Checks
import VibePoker.Game.Lone
import VibePoker.Sim.Runner
import VibePoker.Theorems.Conservation

/-!
# Lone contenders and long runs

A hand that can be dealt, in which somebody live has chips, neither panics nor
loses chips, as long as no amount overflows and no contender leaves behind chips
that nobody else can win. Simulation runs made of such hands keep their chips.

## Main definitions

* `Playable` — tables at which a hand can be played
* `KeepsHands` — folds that leave no chips behind

## Main results

* `chips_kept` — hands with any number of contenders, and runs of them
* `chips_given_away` — hands that panic, and hands and runs that lose chips
-/

namespace VibePoker.Game

open VibePoker.Core VibePoker.CS VibePoker.Sim

section Hand

variable (e : Engine) (handId deckSeed : ℕ) (order : Fin 52 → Card) (startingStacks : List ℕ)
  (dealer : ℕ) (seatKinds : Option (List SeatKind)) (answers : List Action)

/-- A table at which a hand can be played: somebody live has chips, the deck has
the cards for all seats with chips and the board, no seat can win `2 ^ 31` chips,
and no dead hand posts a small blind that nobody has to match. -/
structure Playable : Prop where
  live : ∃ i, 0 < startingStacks.get i ∧ deadHand seatKinds i = false
  cards : fundedSeats startingStacks ≤ 23
  fits : ∀ i, ∑ j ∈ Finset.univ.erase i, startingStacks.get j < 2 ^ 31
  covered : CoveredStart e startingStacks dealer seatKinds

/-- No answer of the hand folds the last contender for chips in the pot, or a
forced bet that nobody has to match. -/
def KeepsHands : Prop :=
  ∀ p ∈ answered (runHand e handId deckSeed order startingStacks dealer seatKinds answers).1
    answers, ContestedFold p.1 p.2 ∧ CoveredFold e p.1 p.2

/-- The hand does not panic and conserves the chips; a seat that is the only live
one ends up with everything the others have put in, after at most one answer. -/
structure KeepsChips (outcome : HandOutcome startingStacks.length) : Prop where
  no_panic : outcome ≠ .panicked ∧ outcome ≠ .spinning
  conserves : ConservesChips startingStacks outcome
  lone : ∀ i, LoneLive startingStacks seatKinds i →
    (outcome = .waiting → answers = []) ∧
      ∀ result players chipDeltas rest, outcome = .finished result players chipDeltas rest →
        (players i).stack =
          startingStacks.get i + ∑ j ∈ Finset.univ.erase i, (players j).totalCommitted

end Hand

section Hand

variable {e : Engine} {handId deckSeed : ℕ} {order : Fin 52 → Card} {startingStacks : List ℕ}
  {dealer : ℕ} {seatKinds : Option (List SeatKind)} {answers : List Action}

theorem keepsChips (hplayable : Playable e startingStacks dealer seatKinds)
    (hkinds : KindsFit seatKinds startingStacks.length)
    (hkeeps : KeepsHands e handId deckSeed order startingStacks dealer seatKinds answers) :
    KeepsChips startingStacks seatKinds answers
      (runHand e handId deckSeed order startingStacks dealer seatKinds answers).2 := by
  obtain ⟨⟨live, hlive, hdead⟩, hcards, hfits, hcovered⟩ := hplayable
  have hfunded := fundedSeats_pos hlive
  obtain ⟨t, hnew⟩ : ∃ t,
      (GameTree.new e handId deckSeed order startingStacks dealer seatKinds).2 = some t :=
    new_isSome (by omega) hkinds hlive hdead
  rcases runHand_trace (fun d action => ContestedFold d action ∧ CoveredFold e d action) hkeeps with
    ⟨hnone, -⟩ | ⟨t₀, used, rest, t', hnew', rfl, htrace, hends⟩
  · simp [hnew] at hnone
  obtain rfl : t = t₀ := Option.some.inj (hnew.symm.trans hnew')
  have hsound := sound_of_trace (fun _ _ h => h) htrace (sound_new hfunded hcovered hnew)
  have hplaying := playing_of_trace htrace (playing_new hnew)
  have hlone := fun i (hi : LoneLive startingStacks seatKinds i) =>
    takesAll_of_trace (fun _ _ h => h.1) hfunded hi hnew htrace
  generalize (runHand e handId deckSeed order startingStacks dealer seatKinds (used ++ rest)).2 =
    outcome at hends
  cases hends with
  | finished chipDeltas hphase =>
    obtain ⟨hsettled, hpays⟩ := hsound.settled chipDeltas hphase
    refine ⟨by simp [settle], conservesChips_of_settlement hsettled hpays hfits _ rest,
      fun i hi => ⟨by simp [settle], ?_⟩⟩
    intro result players chipDeltas' rest' heq
    rw [settle, HandOutcome.finished.injEq] at heq
    obtain ⟨-, rfl, -, -⟩ := heq
    rcases hlone i hi with ⟨-, hdecision⟩ | ⟨chipDeltas', hphase', htakes⟩
    · exact absurd (GameTree.decision?_eq_none_iff.mpr ⟨chipDeltas, hphase⟩) hdecision
    · obtain rfl : chipDeltas = chipDeltas' := by simpa [hphase] using hphase'
      exact htakes.stack_eq hsettled hpays
  | waiting d hd hrest =>
    refine ⟨by simp, fun _ _ _ _ heq => by simp at heq, fun i hi => ⟨fun _ => ?_, by simp⟩⟩
    rcases hlone i hi with ⟨rfl, -⟩ | ⟨chipDeltas, hphase, -⟩
    · simp [hrest]
    · simp [GameTree.decision?_eq_none_iff.mpr ⟨chipDeltas, hphase⟩] at hd
  | panicked hstuck => exact absurd hstuck (not_stuck hplaying (by omega) rest)

theorem fundedSeats_pos_of_sum (h : 0 < startingStacks.sum) :
    0 < fundedSeats startingStacks := by
  by_contra hnone
  have hzero : startingStacks.sum = 0 := List.sum_eq_zero fun stack hstack => by
    by_contra hne
    exact hnone (List.countP_pos_iff.mpr ⟨stack, hstack, by simp; omega⟩)
  omega

end Hand

/-! ## Simulation runs -/

section Run

variable {mode : SeedMode}

/-- A hand of a run that can be played, in which no amount overflows and nobody leaves
chips behind. -/
structure GoodHand (config : SimConfig) (s : SimState) (input : SimInput) : Prop where
  checked : runHandChecked s.runner.engine s.runner.nextHandId (s.deckSeed config input)
    (s.runner.shuffle (s.deckSeed config input)) (s.handStacks config) s.runner.dealer none
    input.answers = some (s.hand config input)
  cards : fundedSeats (s.handStacks config) ≤ 23
  fits : ∀ i, ∑ j ∈ Finset.univ.erase i, (s.handStacks config).get j < 2 ^ 31
  keeps : KeepsHands s.runner.engine s.runner.nextHandId (s.deckSeed config input)
    (s.runner.shuffle (s.deckSeed config input)) (s.handStacks config) s.runner.dealer none
    input.answers

/-- The hand does not panic, and no seat loses more than it has: adding the delta
to its stack needs no clamping. -/
def NeedsNoClamp (config : SimConfig) (s : SimState) (input : SimInput) : Prop :=
  (s.hand config input).2 ≠ .panicked ∧ (s.hand config input).2 ≠ .spinning ∧
    ∀ result players chipDeltas rest,
      (s.hand config input).2 = .finished result players chipDeltas rest →
        ∀ o ∈ result.seats,
          0 ≤ (s.runner.seatStacks.getD o.seat 0 : ℤ) + o.chipDelta

theorem GoodHand.keepsChips {s : SimState} {input : SimInput}
    (h : GoodHand ⟨mode, .persistent⟩ s input) (hpos : 0 < s.runner.seatStacks.sum) :
    KeepsChips s.runner.seatStacks none input.answers (s.hand ⟨mode, .persistent⟩ input).2 := by
  obtain ⟨live, hlive⟩ := exists_funded (fundedSeats_pos_of_sum hpos)
  exact Game.keepsChips ⟨⟨live, hlive, rfl⟩, h.cards, h.fits, coveredStart_none _ _ _⟩
    (fun _ _ => rfl) h.keeps

theorem GoodHand.seat_pays {s : SimState} {input : SimInput}
    (h : GoodHand ⟨mode, .persistent⟩ s input) (hpos : 0 < s.runner.seatStacks.sum)
    {result : HandResult} {players : Fin s.runner.seatStacks.length → PlayerState}
    {chipDeltas : Fin s.runner.seatStacks.length → ℤ} {rest : List Action}
    (hfinished : (s.hand ⟨mode, .persistent⟩ input).2 =
      .finished result players chipDeltas rest) :
    ∀ o ∈ result.seats, o.seat < s.runner.seatStacks.length ∧
      0 ≤ (s.runner.seatStacks.getD o.seat 0 : ℤ) + o.chipDelta := by
  intro o ho
  obtain ⟨-, hpays, -⟩ := (h.keepsChips hpos).conserves result players chipDeltas rest hfinished
  obtain ⟨i, hseat, hle⟩ := hpays o ho
  have hget : s.runner.seatStacks.getD o.seat 0 = s.runner.seatStacks.get i := by
    rw [hseat, List.getD_eq_getElem?_getD, List.getElem?_eq_getElem i.isLt]
    rfl
  exact ⟨hseat ▸ i.isLt, by rw [hget]; omega⟩

theorem GoodHand.needsNoClamp {s : SimState} {input : SimInput}
    (h : GoodHand ⟨mode, .persistent⟩ s input) (hpos : 0 < s.runner.seatStacks.sum) :
    NeedsNoClamp ⟨mode, .persistent⟩ s input :=
  ⟨(h.keepsChips hpos).no_panic.1, (h.keepsChips hpos).no_panic.2,
    fun _ _ _ _ hfinished o ho => (h.seat_pays hpos hfinished o ho).2⟩

/-- A good hand keeps the total of the stacks. -/
theorem GoodHand.sum_eq {s s' : SimState} {input : SimInput}
    (h : GoodHand ⟨mode, .persistent⟩ s input) (hpos : 0 < s.runner.seatStacks.sum)
    (hplay : s.playHand ⟨mode, .persistent⟩ input = some s') :
    s'.runner.seatStacks.sum = s.runner.seatStacks.sum := by
  obtain ⟨result, players, chipDeltas, rest, hfinished, rfl⟩ := SimState.playHand_eq_some hplay
  have hsum := sum_applyResultToStacks (nodup_of_finished hfinished) (h.seat_pays hpos hfinished)
  obtain ⟨hzero, -⟩ := (h.keepsChips hpos).conserves result players chipDeltas rest hfinished
  rw [hzero] at hsum
  change (applyResultToStacks result s.runner.seatStacks).sum = _
  omega

/-- A run of good hands keeps the total of the stacks and clamps nothing. -/
theorem persistent_run {s : SimState} {inputs : List SimInput}
    (hpos : 0 < s.runner.seatStacks.sum)
    (hgood : s.EveryHand ⟨mode, .persistent⟩ inputs (GoodHand ⟨mode, .persistent⟩)) :
    s.EveryHand ⟨mode, .persistent⟩ inputs (fun s' input =>
        NeedsNoClamp ⟨mode, .persistent⟩ s' input ∧
          s'.runner.seatStacks.sum = s.runner.seatStacks.sum) ∧
      ∀ s', inputs.foldlM (SimState.playHand ⟨mode, .persistent⟩) s = some s' →
        s'.runner.seatStacks.sum = s.runner.seatStacks.sum := by
  obtain ⟨hbefore, hend⟩ := SimState.run_invariant
    (fun s' => s'.runner.seatStacks.sum = s.runner.seatStacks.sum)
    (fun s' input s'' hsum hinput hplay =>
      (hinput.sum_eq (hsum ▸ hpos) hplay).trans hsum) rfl hgood
  refine ⟨fun before input after s' heq hplay => ?_, hend⟩
  obtain ⟨hsum, hinput⟩ := hbefore before input after s' heq hplay
  exact ⟨hinput.needsNoClamp (hsum ▸ hpos), hsum⟩

end Run

/-- A playable hand without overflow and without folds that leave chips behind does
not panic and keeps the chips, on the engine and on the stepper, and a lone live seat
takes everything; and in a persistent run of such hands the total of the stacks stays
the same and no stack is clamped. -/
theorem chips_kept (e : Engine) :
    (∀ handId deckSeed order startingStacks dealer seatKinds answers hand,
      KindsFit seatKinds startingStacks.length →
      Playable e startingStacks dealer seatKinds →
      runHandChecked e handId deckSeed order startingStacks dealer seatKinds answers = some hand →
      KeepsHands e handId deckSeed order startingStacks dealer seatKinds answers →
      KeepsChips startingStacks seatKinds answers hand.2 ∧
        KeepsChips startingStacks seatKinds answers
          (GameTree.playHand e handId deckSeed order startingStacks dealer seatKinds answers).2) ∧
    ∀ (r : SimRunner) mode inputs, 0 < r.seatStacks.sum →
      r.start.EveryHand ⟨mode, .persistent⟩ inputs (GoodHand ⟨mode, .persistent⟩) →
      r.start.EveryHand ⟨mode, .persistent⟩ inputs (NeedsNoClamp ⟨mode, .persistent⟩) ∧
        ∀ result, r.run ⟨mode, .persistent⟩ inputs = some result →
          result.finalStacks.sum = r.seatStacks.sum := by
  refine ⟨fun handId deckSeed order startingStacks dealer seatKinds answers hand hkinds hplayable
    hhand hkeeps => ?_, fun r mode inputs hpos hgood => ?_⟩
  · have hkept := keepsChips hplayable hkinds hkeeps
    rw [← runHand_of_checked hhand]
    exact ⟨hkept, runHand_snd ▸ hkept⟩
  · obtain ⟨hbefore, hend⟩ := persistent_run (s := r.start) hpos hgood
    refine ⟨fun before input after s' heq hplay => (hbefore before input after s' heq hplay).1,
      fun result hrun => ?_⟩
    obtain ⟨s', hplay, rfl⟩ := Option.map_eq_some_iff.mp hrun
    exact hend s' hplay

/-- A table with blinds of 1 and 2. -/
def smallEngine : Engine := ⟨⟨.noLimit, 1, 2, 0⟩, ⟨fun _ => 0⟩⟩

/-- Without folds no chips are left behind. -/
theorem keepsHands_of_not_mem {e : Engine} {handId deckSeed : ℕ} {order : Fin 52 → Card}
    {startingStacks : List ℕ} {dealer : ℕ} {seatKinds : Option (List SeatKind)}
    {answers : List Action} (h : .fold ∉ answers) :
    KeepsHands e handId deckSeed order startingStacks dealer seatKinds answers := by
  intro p hp
  have hmem := (List.of_mem_zip hp).2
  exact ⟨fun hfold => absurd (hfold ▸ hmem) h, fun hfold => absurd (hfold ▸ hmem) h⟩

/-- A seat opposite a dead hand takes the blinds, and an all-in keeps the total. -/
theorem chips_kept_heads_up :
    (∃ hand, runHandChecked smallEngine 1 0 (fun i => ⟨i⟩) [100, 100] 0
        (some [.live, .deadHand]) [.check] = some hand ∧
      KeepsChips [100, 100] (some [.live, .deadHand]) [.check] hand.2) ∧
      ∀ result, (SimRunner.new smallEngine (fun _ i => ⟨i⟩) [100, 100]).run
          ⟨.random, .persistent⟩ [⟨0, [.allIn, .allIn]⟩] = some result →
        result.finalStacks.sum = 200 := by
  have hdead : runHandChecked smallEngine 1 0 (fun i => ⟨i⟩) [100, 100] 0
      (some [.live, .deadHand]) [.check] = some _ := runHandChecked_of_isSome (by decide +kernel)
  refine ⟨⟨_, hdead, ((chips_kept smallEngine).1 1 0 (fun i => ⟨i⟩) [100, 100] 0
      (some [.live, .deadHand]) [.check] _ ?_
      ⟨⟨0, by decide, by decide⟩, by decide, by decide, Or.inl (by decide)⟩ hdead
      (keepsHands_of_not_mem (by decide))).1⟩,
    ((chips_kept smallEngine).2 (SimRunner.new smallEngine (fun _ i => ⟨i⟩) [100, 100]) .random
      [⟨0, [.allIn, .allIn]⟩] (by decide) ?_).2⟩
  · intro seat hseat
    have hnone : [SeatKind.live, .deadHand][seat]? = none := List.getElem?_eq_none hseat
    simp [deadHand, Engine.isDeadHand, hnone]
  · refine SimState.everyHand_cons
      ⟨runHandChecked_of_isSome (by decide +kernel), by decide, by decide,
        keepsHands_of_not_mem (by decide)⟩
      fun s' _ before input after _ heq => ?_
    simp at heq

/-! ## Chips given away -/

/-- The hand panicked. -/
def HandOutcome.isPanicked {n : ℕ} : HandOutcome n → Bool
  | .panicked => true
  | _ => false

theorem HandOutcome.eq_panicked {n : ℕ} {outcome : HandOutcome n} (h : outcome.isPanicked) :
    outcome = .panicked := by
  cases outcome <;> first | rfl | simp [isPanicked] at h

/-- Two dead hands are a panic; a lone live seat that folds, opposite a dead hand
or opposite a seat without chips, gives away the pot. -/
theorem chips_given_away :
    (¬ KeepsChips [100, 100] (some [.deadHand, .deadHand]) []
        (runHand smallEngine 1 0 (fun i => ⟨i⟩) [100, 100] 0
          (some [.deadHand, .deadHand]) []).2) ∧
      (¬ KeepsChips [100, 100] (some [.live, .deadHand]) [.fold]
        (runHand smallEngine 1 0 (fun i => ⟨i⟩) [100, 100] 0
          (some [.live, .deadHand]) [.fold]).2) ∧
      (SimRunner.new smallEngine (fun _ i => ⟨i⟩) [100, 0]).run ⟨.random, .persistent⟩
        [⟨0, [.fold]⟩] = some ⟨1, [-3, 0], [97, 0]⟩ := by
  refine ⟨fun h => ?_, fun h => ?_, by decide +kernel⟩
  · have hpanics : (runHand smallEngine 1 0 (fun i => ⟨i⟩) [100, 100] 0
        (some [.deadHand, .deadHand]) []).2.isPanicked := by decide +kernel
    exact h.no_panic.1 (HandOutcome.eq_panicked hpanics)
  · have haccount : (runHand smallEngine 1 0 (fun i => ⟨i⟩) [100, 100] 0
        (some [.live, .deadHand]) [.fold]).2.account = some (197, [-2, -1]) := by decide +kernel
    exact absurd (h.conserves.account_eq haccount).1 (by decide)

end VibePoker.Game
