import VibePoker.Game.Cover

/-!
# Chip conservation

A hand moves chips and reports who won them. Two things can go wrong: a slice
that no seat still in has reached is dropped, and a delta that does not fit 32
bits is reported modulo `2 ^ 32`. Neither happens if no unmatched forced bet is
folded and no seat can win `2 ^ 31` chips.

## Main results

* `chips_conserved` — a hand without these conserves the chips
* `chips_not_conserved` — hands with them
-/

namespace VibePoker.Game

open VibePoker.Core VibePoker.CS

/-- The hand, if it finished, reports deltas that add up to zero and that no seat
could not pay, and leaves as many chips on the table as there were. -/
def ConservesChips (startingStacks : List ℕ) (outcome : HandOutcome startingStacks.length) :
    Prop :=
  ∀ result players chipDeltas rest, outcome = .finished result players chipDeltas rest →
    (result.seats.map SeatOutcome.chipDelta).sum = 0 ∧
      (∀ o ∈ result.seats, ∃ i, o.seat = i.val ∧ -(startingStacks.get i : ℤ) ≤ o.chipDelta) ∧
      ∑ i, (players i).stack = ∑ i, startingStacks.get i

theorem conservesChips_of_settlement {startingStacks : List ℕ}
    {s : GameState startingStacks.length} {chipDeltas : Fin startingStacks.length → ℤ}
    (h : Settlement startingStacks.get s chipDeltas) (hpays : PaysOut s chipDeltas)
    (hfits : ∀ i, ∑ j ∈ Finset.univ.erase i, startingStacks.get j < 2 ^ 31) (handId : ℕ)
    (rest : List Action) :
    ConservesChips startingStacks
      (.finished (buildResult handId s chipDeltas) s.players chipDeltas rest) := by
  intro result players chipDeltas' rest' heq
  rw [HandOutcome.finished.injEq] at heq
  obtain ⟨rfl, rfl, rfl, rfl⟩ := heq
  refine ⟨h.sum_chipDelta hpays hfits handId, fun o ho => ?_, h.sum_stack hpays⟩
  obtain ⟨i, -, rfl⟩ := List.mem_map.mp ho
  refine ⟨i, rfl, ?_⟩
  rw [h.chipDelta_eq hpays hfits i]
  omega

section Hand

variable {e : Engine} {handId deckSeed : ℕ} {order : Fin 52 → Card} {startingStacks : List ℕ}
  {dealer : ℕ} {answers : List Action}

theorem conservesChips_of_covered (hfunded : 2 ≤ fundedSeats startingStacks)
    (hfits : ∀ i, ∑ j ∈ Finset.univ.erase i, startingStacks.get j < 2 ^ 31)
    (hfold : ∀ p ∈ answered
      (runHand e handId deckSeed order startingStacks dealer none answers).1 answers,
      CoveredFold e p.1 p.2) :
    ConservesChips startingStacks
      (runHand e handId deckSeed order startingStacks dealer none answers).2 := by
  intro result players chipDeltas rest hfinished
  rcases runHand_trace (CoveredFold e) hfold with
    ⟨-, hpanicked⟩ | ⟨t, used, rest', t', hnew, -, htrace, hends⟩
  · simp [hpanicked] at hfinished
  · rw [hfinished] at hends
    have hstart := coveredStart_none e startingStacks dealer
    have hsound := sound_of_trace (fun d action h => ⟨fun _ => Or.inl h.2, h.1⟩)
      (two_contenders hfunded hnew htrace) (sound_new (by omega) hstart hnew)
    obtain ⟨hsettled, hpays, rfl, rfl⟩ := hsound.settlement hends
    exact conservesChips_of_settlement hsettled hpays hfits _ rest _ _ _ _ rfl

/-- A finished hand reports each seat at most once. -/
theorem nodup_of_finished {seatKinds : Option (List SeatKind)} {result : HandResult}
    {players : Fin startingStacks.length → PlayerState}
    {chipDeltas : Fin startingStacks.length → ℤ} {rest : List Action}
    (h : (runHand e handId deckSeed order startingStacks dealer seatKinds answers).2 =
      .finished result players chipDeltas rest) :
    (result.seats.map SeatOutcome.seat).Nodup := by
  rcases runHand_trace (fun _ _ => True) (fun _ _ => trivial) with
    ⟨-, hpanicked⟩ | ⟨t, used, rest', t', -, -, -, hends⟩
  · rw [h] at hpanicked
    cases hpanicked
  · rw [h] at hends
    obtain ⟨-, -, -, rfl⟩ := hends.terminal
    exact nodup_seats _ _ _

end Hand

/-- A hand conserves the chips, whichever way it ends and whatever the agents
answer, if no seat can win `2 ^ 31` chips and either some forced bet has to be
matched or no seat folds while its street bet exceeds the current bet. -/
theorem chips_conserved (e : Engine) (handId deckSeed : ℕ) (order : Fin 52 → Card)
    (startingStacks : List ℕ) (dealer : ℕ) (answers : List Action)
    (hfunded : 2 ≤ fundedSeats startingStacks)
    (hfits : ∀ i, ∑ j ∈ Finset.univ.erase i, startingStacks.get j < 2 ^ 31)
    (hfold : ∀ p ∈ answered
      (runHand e handId deckSeed order startingStacks dealer none answers).1 answers,
      CoveredFold e p.1 p.2) :
    ConservesChips startingStacks
      (runHand e handId deckSeed order startingStacks dealer none answers).2 :=
  conservesChips_of_covered hfunded hfits hfold

/-- Heads-up, folding the small blind conserves the chips. -/
theorem chips_conserved_heads_up :
    ConservesChips [100, 100]
      (runHand ⟨⟨.noLimit, 1, 2, 0⟩, ⟨fun _ => 0⟩⟩ 1 0 (fun i => ⟨i⟩) [100, 100] 0 none
        [.fold]).2 :=
  chips_conserved _ 1 0 _ [100, 100] 0 [.fold] (by decide) (by decide)
    fun _ _ _ => Or.inl (by decide)

/-! ## Hands that do not conserve the chips -/

/-- The chips on the table after a finished hand, and the reported deltas. -/
def HandOutcome.account {n : ℕ} : HandOutcome n → Option (ℕ × List ℤ)
  | .finished result players _ _ =>
    some (∑ i, (players i).stack, result.seats.map SeatOutcome.chipDelta)
  | _ => none

theorem ConservesChips.account_eq {startingStacks : List ℕ}
    {outcome : HandOutcome startingStacks.length} {chips : ℕ} {deltas : List ℤ}
    (h : ConservesChips startingStacks outcome)
    (haccount : outcome.account = some (chips, deltas)) :
    deltas.sum = 0 ∧ chips = ∑ i, startingStacks.get i := by
  cases outcome with
  | finished result players chipDeltas rest =>
    obtain ⟨rfl, rfl⟩ : _ = chips ∧ _ = deltas := by simpa [HandOutcome.account] using haccount
    obtain ⟨hsum, -, hstacks⟩ := h result players chipDeltas rest rfl
    exact ⟨hsum, hstacks⟩
  | waiting => simp [HandOutcome.account] at haccount
  | panicked => simp [HandOutcome.account] at haccount
  | spinning => simp [HandOutcome.account] at haccount

/-- A hand without big blind and ante in which the small blind folds. -/
def foldedBlindHand : HandOutcome [100, 100, 100].length :=
  (runHand ⟨⟨.noLimit, 10, 0, 0⟩, ⟨fun _ => 0⟩⟩ 1 0 (fun i => ⟨i⟩) [100, 100, 100] 0 none
    [.check, .fold, .check, .check, .check, .check, .check, .check, .check]).2

/-- A hand in which four seats put a milliard in each. -/
def milliardHand :
    HandOutcome [1000000000, 1000000000, 1000000000, 1000000000].length :=
  (runHand ⟨⟨.noLimit, 1, 2, 0⟩, ⟨fun cards => (cards.headD ⟨0⟩).index⟩⟩ 1 0 (fun i => ⟨i⟩)
    [1000000000, 1000000000, 1000000000, 1000000000] 0 none
    [.allIn, .allIn, .allIn, .allIn]).2

/-- The folded blind is lost to nobody, and the deltas of four milliards do not
add up. -/
theorem chips_not_conserved :
    ¬ ConservesChips [100, 100, 100] foldedBlindHand ∧
      ¬ ConservesChips [1000000000, 1000000000, 1000000000, 1000000000] milliardHand := by
  refine ⟨fun h => ?_, fun h => ?_⟩
  · have haccount : foldedBlindHand.account = some (290, [0, -10, 0]) := by decide +kernel
    exact absurd (h.account_eq haccount).1 (by decide)
  · have haccount : milliardHand.account = some (4000000000,
        [-1000000000, -1000000000, -1000000000, -1294967296]) := by decide +kernel
    exact absurd (h.account_eq haccount).1 (by decide)

end VibePoker.Game
