import VibePoker.Game.Reached
import VibePoker.Game.Termination

/-!
# Every hand ends

Played with legal answers, a hand without antes comes to its end after finitely
many prompts, as long as the deck has the cards for it: two for each seat with
chips, and five for the board.

## Main definitions

* `EndsWithin` — a bound on the number of prompts

## Main results

* `hand_ends` — hands of any number of seats
* `hand_never_ends` — a table for which the deck is too small
-/

namespace VibePoker.Game

open VibePoker.Core VibePoker.CS

variable {n : ℕ}

/-- The run reported the end of the hand. -/
def HandEnded (run : List (Output n) × HandOutcome n) : Prop :=
  ∃ result : HandResult, Output.event (.handEnded result.handId result) ∈ run.1

theorem handEnded_reportEnd {hand : List (Output n) × HandOutcome n} {result : HandResult}
    {players : Fin n → PlayerState} {chipDeltas : Fin n → ℤ} {rest : List Action}
    (h : hand.2 = .finished result players chipDeltas rest) : HandEnded (reportEnd hand) := by
  refine ⟨result, ?_⟩
  simp [reportEnd, h]

section Hand

variable {e : Engine} {handId deckSeed : ℕ} {order : Fin 52 → Card} {startingStacks : List ℕ}
  {dealer : ℕ} {seatKinds : Option (List SeatKind)} {answers : List Action}

/-- A finished hand reported its end. -/
theorem handEnded_of_finished {result : HandResult}
    {players : Fin startingStacks.length → PlayerState}
    {chipDeltas : Fin startingStacks.length → ℤ} {rest : List Action}
    (h : (runHand e handId deckSeed order startingStacks dealer seatKinds answers).2 =
      .finished result players chipDeltas rest) :
    HandEnded (runHand e handId deckSeed order startingStacks dealer seatKinds answers) := by
  rw [runHand] at h ⊢
  cases hsetup : setupHand e (.new order) (e.initState handId startingStacks dealer) seatKinds with
  | none => simp [hsetup] at h
  | some opened =>
    simp only [hsetup, reportEnd_snd] at h ⊢
    exact handEnded_reportEnd h

end Hand

/-- While a round is not done, skipping finds an active seat that has not both
matched the bet and responded, within one lap. -/
def SkippingEnds (n : ℕ) : Prop :=
  ∀ (s : GameState n) (hasResponded : Fin n → Bool) (current : Fin n),
    ((∀ i, s.unsettled hasResponded i = false) ∧ seek s hasResponded n current = .allDone) ∨
      ∃ seat, (s.players seat).status = .active ∧ s.unsettled hasResponded seat ∧
        seek s hasResponded n current = .prompt seat

theorem skippingEnds (n : ℕ) : SkippingEnds n := by
  intro s hasResponded current
  rw [seek_eq]
  cases hfind : (Math.ringFrom n current).find? fun i => s.unsettled hasResponded i with
  | none =>
    refine Or.inl ⟨fun i => ?_, rfl⟩
    have := List.find?_eq_none.mp hfind i (Math.mem_ringFrom current i)
    simpa using this
  | some seat =>
    have hopen : s.unsettled hasResponded seat := List.find?_some hfind
    exact Or.inr ⟨seat, unsettled_active hopen, hopen, rfl⟩

/-- After `bound` legal answers the hand has ended, or it panicked because
`tooMany` seats are to be dealt in. -/
def EndsWithin (e : Engine) (handId deckSeed : ℕ) (order : Fin 52 → Card)
    (startingStacks : List ℕ) (dealer bound : ℕ) (tooMany : Prop) : Prop :=
  ∀ answers,
    (∀ p ∈ answered (runHand e handId deckSeed order startingStacks dealer none answers).1
      answers, p.1.legal e p.2) →
    HandEnded (runHand e handId deckSeed order startingStacks dealer none answers) ∨
      ((runHand e handId deckSeed order startingStacks dealer none answers).2 = .waiting ∧
        answers.length < bound) ∨
      ((runHand e handId deckSeed order startingStacks dealer none answers).2 = .panicked ∧
        tooMany)

/-- A hand played with legal answers ends after finitely many prompts, with
finitely many steps between them; only a deck that is too small for the seats can
prevent it. -/
theorem hand_ends (e : Engine) (handId deckSeed : ℕ) (order : Fin 52 → Card)
    (startingStacks : List ℕ) (dealer : ℕ) (hante : e.rules.ante = 0)
    (hblinds : e.rules.smallBlind ≤ e.rules.bigBlind) (hblind : 0 < e.rules.bigBlind)
    (hfunded : 2 ≤ fundedSeats startingStacks) :
    SkippingEnds startingStacks.length ∧
      ∃ bound, EndsWithin e handId deckSeed order startingStacks dealer bound
        (23 < fundedSeats startingStacks) := by
  refine ⟨skippingEnds _, ?_⟩
  obtain ⟨bound, hbound⟩ := exists_bound handId deckSeed order dealer none hante hblinds hblind
    hfunded
  refine ⟨bound, fun answers hlegal => ?_⟩
  have hwaiting := hbound answers hlegal
  rcases runHand_trace (Decision.legal e) hlegal with
    ⟨hnew, hpanicked⟩ | ⟨t, used, rest, t', hnew, -, htrace, hends⟩
  · refine Or.inr (Or.inr ⟨hpanicked, ?_⟩)
    by_contra hfew
    have hpos : 0 < fundedSeats startingStacks := by omega
    obtain ⟨live, hlive⟩ := exists_funded hpos
    obtain ⟨t, hsome⟩ : ∃ t,
        (GameTree.new e handId deckSeed order startingStacks dealer none).2 = some t :=
      new_isSome (by omega) (fun _ _ => rfl) hlive rfl
    simp [hnew] at hsome
  · generalize houtcome :
      (runHand e handId deckSeed order startingStacks dealer none answers).2 = outcome at hends
    cases hends with
    | finished chipDeltas hphase => exact Or.inl (handEnded_of_finished houtcome)
    | waiting d hd hrest => exact Or.inr (Or.inl ⟨rfl, hwaiting houtcome⟩)
    | panicked hstuck =>
      refine Or.inr (Or.inr ⟨rfl, ?_⟩)
      by_contra hfew
      exact not_stuck (playing_of_trace htrace (playing_new hnew)) (by omega) rest hstuck

/-- Heads-up hands end. -/
theorem hand_ends_heads_up :
    SkippingEnds 2 ∧ ∃ bound, EndsWithin ⟨⟨.noLimit, 1, 2, 0⟩, ⟨fun _ => 0⟩⟩ 1 0 (fun i => ⟨i⟩)
      [100, 100] 0 bound (23 < fundedSeats [100, 100]) :=
  hand_ends ⟨⟨.noLimit, 1, 2, 0⟩, ⟨fun _ => 0⟩⟩ 1 0 (fun i => ⟨i⟩) [100, 100] 0 rfl (by decide)
    (by decide) (by decide)

/-- Without hole cards for every seat the hand does not end. -/
theorem not_endsWithin {e : Engine} {handId deckSeed : ℕ} {order : Fin 52 → Card}
    {startingStacks : List ℕ} {dealer : ℕ} (hcards : 26 < fundedSeats startingStacks)
    (bound : ℕ) : ¬ EndsWithin e handId deckSeed order startingStacks dealer bound False := by
  intro h
  have hpanics : runHand e handId deckSeed order startingStacks dealer none [] = _ :=
    runHand_of_tooMany hcards []
  rcases h [] (by simp [answered]) with ⟨result, hended⟩ | ⟨hwaiting, -⟩ | ⟨-, hnot⟩
  · -- the setup reports forced bets and hole cards only
    have hmem : .handEnded result.handId result ∈
        setupEvents e (.new order) (e.initState handId startingStacks dealer) := by
      simpa [hpanics] using hended
    rcases setupEvents_reports _ _ _ hmem with ⟨_, _, heq⟩ | ⟨_, _, heq⟩ <;> cases heq
  · simp [hpanics] at hwaiting
  · exact hnot

/-- A deck has no hole cards for 27 seats. -/
theorem hand_never_ends :
    2 ≤ fundedSeats (List.replicate 27 100) ∧
      ¬ ∃ bound, EndsWithin ⟨⟨.noLimit, 1, 2, 0⟩, ⟨fun _ => 0⟩⟩ 1 0 (fun i => ⟨i⟩)
        (List.replicate 27 100) 0 bound False :=
  ⟨by decide, fun ⟨bound, h⟩ => not_endsWithin (by decide) bound h⟩

end VibePoker.Game
