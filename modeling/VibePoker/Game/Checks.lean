import VibePoker.Game.Checked
import VibePoker.Game.Settlement
import VibePoker.Game.Simulation

/-!
# What passes the checks is exact

Each function of the engine with overflow checks either fails or computes what the function
with exact numbers computes. So a hand that passes all checks is the hand of `runHand`,
whether a build makes the checks or wraps around where they would fail.

## Main definitions

* `PlaysLegally` — a hand in which nothing overflows, with answers that were offered

## Main results

* `runHand_of_checked` — what passes the checks is the hand of `runHand`
-/

namespace VibePoker.Game

open VibePoker.Core VibePoker.CS VibePoker.Math

variable {n : ℕ}

/-! ## Seats and pots -/

/-- Putting in the whole stack. -/
theorem PlayerState.put_self (p : PlayerState) :
    p.put p.stack = { p with
      stack := 0
      betThisStreet := p.betThisStreet + p.stack
      totalCommitted := p.totalCommitted + p.stack } := by
  simp [PlayerState.put]

theorem approximates_put (p : PlayerState) (amount : ℕ) :
    Approximates (p.putChecked amount) (p.put amount) := by
  refine (approximates_subWord _ _).bind ?_
  refine (approximates_addWord _ _ _).bind ?_
  refine (approximates_addWord _ _ _).bind ?_
  exact approximates_some _

theorem approximates_putAllIn (p : PlayerState) (amount : ℕ) :
    Approximates (p.putAllInChecked amount) (p.putAllIn amount) :=
  (approximates_put p amount).bind (approximates_some _)

theorem approximates_total (pot : Pot) : Approximates pot.totalChecked pot.total :=
  (approximates_sumWord _ _).bind (approximates_addWord _ _ _)

theorem totalChecked_of_lt {pot : Pot} (h : pot.total < 2 ^ 32) :
    pot.totalChecked = some pot.total := by
  rw [Pot.total] at h
  simp only [Pot.totalChecked, Pot.total, Option.bind_eq_bind]
  rw [sumWord_of_lt (by omega)]
  exact addWord_of_lt h

theorem approximates_streetTotal (players : Fin n → PlayerState) :
    Approximates (streetTotalChecked players) (∑ i, (players i).betThisStreet) := by
  rw [← List.sum_ofFn]
  exact approximates_sumWord _ _

theorem approximates_potTotal (s : GameState n) :
    Approximates s.potTotalChecked s.potTotal := by
  refine (approximates_total s.pot).bind ?_
  exact (approximates_streetTotal s.players).bind (approximates_addWord _ _ _)

theorem approximates_collectStreetBets (s : GameState n) :
    Approximates (collectStreetBetsChecked s) (collectStreetBets s) := by
  refine (approximates_streetTotal s.players).bind ?_
  exact (approximates_addWord _ _ _).bind (approximates_some _)

theorem approximates_mergeIntoLast (amount : ℕ) (pots : List (ℕ × List (Fin n))) :
    Approximates (mergeIntoLastChecked amount pots) (mergeIntoLast amount pots) := by
  induction pots with
  | nil => exact approximates_some _
  | cons pot pots ih =>
    cases pots with
    | nil => exact (approximates_addWord _ _ _).bind (approximates_some _)
    | cons next pots => exact ih.bind (approximates_some _)

theorem approximates_buildPotsFrom (players : Fin n → PlayerState) (prev : ℕ)
    (levels : List ℕ) (result : List (ℕ × List (Fin n))) :
    Approximates (buildPotsFromChecked players prev levels result)
      (buildPotsFrom players prev levels result) := by
  induction levels generalizing prev result with
  | nil => exact approximates_some _
  | cons level levels ih =>
    refine (approximates_subWord _ _).bind ?_
    refine (approximates_asWord _ _).bind ?_
    refine (approximates_mulWord _ _ _).bind ?_
    rw [buildPotsFrom]
    dsimp only
    split_ifs
    · exact ih _ _
    · exact (approximates_mergeIntoLast _ _).bind (ih _ _)
    · exact ih _ _

theorem approximates_buildShowdownPots (players : Fin n → PlayerState) :
    Approximates (buildShowdownPotsChecked players) (buildShowdownPots players) :=
  approximates_buildPotsFrom players _ _ _

/-! ## The engine -/

section Engine

variable (e : Engine)

theorem approximates_postAnte (p : PlayerState) :
    Approximates (e.postAnteChecked p) (e.postAnte p) := by
  rw [Engine.postAnteChecked, Engine.postAnte]
  split_ifs
  · exact approximates_putAllIn _ _
  · exact approximates_some _

theorem approximates_postAntes (s : GameState n) :
    Approximates (e.postAntesChecked s) (e.postAntes s) :=
  (approximates_collect fun i => approximates_postAnte e (s.players i)).bind
    (approximates_some _)

theorem approximates_post (s : GameState n) (seat : Fin n) (amount : ℕ) :
    Approximates (Engine.postChecked s seat amount) (Engine.post s seat amount) :=
  (approximates_putAllIn _ _).bind (approximates_some _)

theorem approximates_postBlinds (s : GameState n) :
    Approximates (e.postBlindsChecked s) (e.postBlinds s) := by
  rw [Engine.postBlindsChecked, Engine.postBlinds]
  split
  · refine (approximates_post _ _ _).bind ?_
    exact (approximates_post _ _ _).bind (approximates_some _)
  · exact approximates_some _

theorem approximates_normalizeAction (s : GameState n) (seat : Fin n) (action : Action) :
    Approximates (Engine.normalizeActionChecked s seat action)
      (Engine.normalizeAction s seat action) := by
  cases action with
  | raise amount =>
    rw [Engine.normalizeActionChecked, Engine.normalizeAction]
    dsimp only
    split
    · exact approximates_some _
    · exact (approximates_addWord _ _ _).bind (approximates_some _)
  | _ => exact approximates_some _

theorem approximates_computeLegalActions (s : GameState n) (seat : Fin n) (canReopen : Bool) :
    Approximates (e.computeLegalActionsChecked s seat canReopen)
      (e.computeLegalActions s seat canReopen) := by
  rw [Engine.computeLegalActionsChecked, Engine.computeLegalActions]
  refine (approximates_addWord _ _ _).bind ?_
  dsimp only
  cases canReopen <;> cases e.rules.variant <;>
    simp only [Bool.false_eq_true, if_false, if_true, Option.bind_eq_bind, Option.bind_some,
      Bool.false_and, Bool.true_and]
  case true.potLimit =>
    refine (approximates_addWord _ _ _).bind ?_
    refine (approximates_total _).bind ?_
    iterate 4 refine (approximates_addWord _ _ _).bind ?_
    exact approximates_some _
  case false.potLimit =>
    refine (approximates_total _).bind ?_
    iterate 4 refine (approximates_addWord _ _ _).bind ?_
    exact approximates_some _
  case true.noLimit =>
    exact (approximates_addWord _ _ _).bind
      ((approximates_addWord _ _ _).bind (approximates_some _))
  case true.fixedLimit | false.noLimit =>
    exact (approximates_addWord _ _ _).bind (approximates_some _)
  case false.fixedLimit => exact approximates_some _

theorem approximates_performAction (s : GameState n) (seat : Fin n) (action : Action) :
    Approximates (Engine.performActionChecked s seat action)
      (Engine.performAction s seat action) := by
  cases action with
  | fold => exact approximates_some _
  | check => exact approximates_some _
  | call => exact (approximates_putAllIn _ _).bind (approximates_some _)
  | raise amount =>
    refine (approximates_put _ _).bind ?_
    refine (approximates_addWord _ _ _).bind ?_
    exact (approximates_subWord _ _).bind (approximates_some _)
  | allIn =>
    rw [Engine.performAction, PlayerState.put_self]
    refine (approximates_addWord _ _ _).bind ?_
    refine (approximates_addWord _ _ _).bind ?_
    by_cases hover : (s.players seat).betThisStreet + (s.players seat).stack > s.currentBet
    · rw [if_pos hover, if_pos hover]
      refine (approximates_subWord _ _).bind ?_
      dsimp only
      split_ifs
      · exact approximates_some _
      · exact (approximates_addWord _ _ _).bind (approximates_some _)
    · rw [if_neg hover, if_neg hover]
      exact approximates_some _

theorem approximates_applyAction (s : GameState n) (seat : Fin n) (action : Action) :
    Approximates (Engine.applyActionChecked s seat action) (Engine.applyAction s seat action) := by
  refine (approximates_performAction s seat action).bind ?_
  exact (approximates_potTotal _).bind (approximates_some _)

theorem approximates_resolveShowdown (s : GameState n) :
    Approximates (e.resolveShowdownChecked s) (e.resolveShowdown s) := by
  rw [Engine.resolveShowdownChecked, Engine.resolveShowdown]
  split_ifs
  · refine (approximates_buildShowdownPots s.players).bind ?_
    cases hawards : e.awardPots s (buildShowdownPots s.players) with
    | none => exact approximates_some _
    | some chipDeltas =>
      exact (approximates_collect fun i => approximates_wordOfInt _ _).bind (approximates_some _)
  · exact approximates_some _

theorem approximates_awardUncontested (s : GameState n) (winner : Fin n) :
    Approximates (Engine.awardUncontestedChecked s winner) (Engine.awardUncontested s winner) := by
  refine (approximates_collectStreetBets s).bind ?_
  refine (approximates_total _).bind ?_
  refine (approximates_addWord _ _ _).bind ?_
  refine fun award haward => (Option.some.inj haward).symm.trans ?_
  rw [Engine.awardUncontested]
  congr 2
  funext i
  by_cases hi : i = winner
  · rw [if_pos hi, if_pos hi, hi]
  · rw [if_neg hi, if_neg hi]

end Engine

/-! ## Results -/

theorem approximates_seatOutcome (s : GameState n) (chipDeltas : Fin n → ℤ) (i : Fin n) :
    Approximates (seatOutcomeChecked s chipDeltas i) (seatOutcome s chipDeltas i) := by
  intro o h
  simp only [seatOutcomeChecked, Option.bind_eq_bind, Option.bind_eq_some_iff,
    Option.some.injEq] at h
  obtain ⟨award, haward, committed, hcommitted, delta, hdelta, rfl⟩ := h
  obtain ⟨rfl, hawardLow, hawardHigh⟩ := mem_of_asSigned haward
  obtain ⟨rfl, hcommittedLow, hcommittedHigh⟩ := mem_of_asSigned hcommitted
  obtain ⟨rfl, hdeltaLow, hdeltaHigh⟩ := mem_of_asSigned hdelta
  rw [seatOutcome, toI32_eq_self hawardLow hawardHigh,
    toI32_eq_self hcommittedLow hcommittedHigh, toI32_eq_self hdeltaLow hdeltaHigh]

theorem approximates_settle (s : GameState n) (chipDeltas : Fin n → ℤ) (rest : List Action) :
    Approximates (settleChecked s chipDeltas rest) (settle s chipDeltas rest) := by
  have hresult : Approximates (buildResultChecked s.handId s chipDeltas)
      (buildResult s.handId s chipDeltas) :=
    (approximates_mapM (approximates_seatOutcome s chipDeltas) _).bind (approximates_some _)
  exact hresult.bind (approximates_some _)

/-! ## Rounds, streets and hands -/

section Hand

variable (e : Engine)

theorem approximates_observation (d : Decision n) :
    Approximates (d.observationChecked e) (d.observation e) :=
  (approximates_computeLegalActions e _ _ _).bind (approximates_some _)

theorem approximates_answer (d : Decision n) (raw : Action) :
    Approximates (d.answerChecked raw) (d.answer raw) := by
  refine (approximates_normalizeAction _ _ _).bind ?_
  refine (approximates_applyAction _ _ _).bind ?_
  refine (approximates_potTotal _).bind ?_
  exact approximates_some _

theorem approximates_runBettingRound (answers : List Action) (s : GameState n)
    (hasResponded : Fin n → Bool) (current : Fin n) :
    Approximates (runBettingRoundChecked e answers s hasResponded current)
      (runBettingRound e answers s hasResponded current) := by
  refine runBettingRound_cases (fun answers s hasResponded current round =>
    Approximates (runBettingRoundChecked e answers s hasResponded current) round)
    ?_ ?_ ?_ ?_ answers s hasResponded current
  · intro answers s hasResponded current hseek
    rw [runBettingRoundChecked, hseek]
    exact approximates_some _
  · intro answers s hasResponded current seat hseek hblind
    have hobs := approximates_observation e ⟨s.setActionOn (some seat), hasResponded, seat⟩
    rw [hblind] at hobs
    rw [runBettingRoundChecked, hseek]
    rcases hobs.eq_none_or with hobs | hobs <;> simp only [hobs]
    · exact approximates_none _
    · exact approximates_some _
  · intro s hasResponded current seat obs hseek hshown
    have hobs := approximates_observation e ⟨s.setActionOn (some seat), hasResponded, seat⟩
    rw [hshown] at hobs
    rw [runBettingRoundChecked, hseek]
    rcases hobs.eq_none_or with hobs | hobs <;> simp only [hobs]
    · exact approximates_none _
    · exact approximates_some _
  · intro raw answers s hasResponded current seat obs hseek hshown ih
    have hobs := approximates_observation e ⟨s.setActionOn (some seat), hasResponded, seat⟩
    rw [hshown] at hobs
    have hanswer := approximates_answer ⟨s.setActionOn (some seat), hasResponded, seat⟩ raw
    rw [runBettingRoundChecked, hseek]
    rcases hobs.eq_none_or with hobs | hobs <;> simp only [hobs]
    · exact approximates_none _
    rcases hanswer.eq_none_or with hanswer | hanswer <;> simp only [hanswer]
    · exact approximates_none _
    rcases heq : Decision.answer ⟨s.setActionOn (some seat), hasResponded, seat⟩ raw with
      ⟨outputs, winner | next | panicked⟩
    · simpa [Answer.goOn] using approximates_some _
    · exact (ih _ _ _ (by rw [heq])).map _
    · simpa [Answer.goOn] using approximates_some _

theorem approximates_runShowdown (deck : Deck) (s : GameState n) (answers : List Action) :
    Approximates (runShowdownChecked e deck s answers) (runShowdown e deck s answers) := by
  rw [runShowdownChecked, runShowdown]
  cases (Engine.dealRemainingBoard s deck).2 with
  | none => exact approximates_some _
  | some dealt =>
    obtain ⟨s', deck'⟩ := dealt
    dsimp only
    rcases (approximates_resolveShowdown e s').eq_none_or with hresolve | hresolve <;>
      simp only [hresolve]
    · exact approximates_none _
    cases e.resolveShowdown s' with
    | none => exact approximates_some _
    | some settled => exact (approximates_settle _ _ _).map _

/-- After a round, with what follows it. -/
theorem approximates_afterRound (round : List (Output n) × RoundOutcome n)
    {proceed : GameState n → List Action → Option (List (Output n) × HandOutcome n)}
    {proceed' : GameState n → List Action → List (Output n) × HandOutcome n}
    (h : ∀ s answers, Approximates (proceed s answers) (proceed' s answers)) :
    Approximates (afterRoundChecked round proceed) (afterRound round proceed') := by
  obtain ⟨outputs, outcome⟩ := round
  cases outcome with
  | winner seat s rest =>
    refine (approximates_awardUncontested _ _).bind ?_
    exact (approximates_settle _ _ _).bind (approximates_some _)
  | ended s rest =>
    refine (approximates_collectStreetBets s).bind ?_
    exact (h _ _).bind (approximates_some _)
  | waiting => exact approximates_some _
  | panicked => exact approximates_some _
  | spinning => exact approximates_some _

theorem approximates_runPostflop (streets : List (Street × ℕ)) (deck : Deck) (s : GameState n)
    (answers : List Action) :
    Approximates (runPostflopChecked e streets deck s answers)
      (runPostflop e streets deck s answers) := by
  induction streets generalizing deck s answers with
  | nil => exact approximates_runShowdown e deck s answers
  | cons next streets ih =>
    obtain ⟨street, count⟩ := next
    rw [runPostflopChecked, runPostflop]
    split_ifs
    · exact approximates_runShowdown e deck s answers
    cases Engine.dealBoardCards (e.beginStreet s street) deck count street with
    | none => exact approximates_some _
    | some dealt =>
      obtain ⟨s', deck', event⟩ := dealt
      dsimp only
      cases Engine.firstToAct s' with
      | some first =>
        refine Approximates.map _ ((approximates_runBettingRound e _ _ _ _).bind ?_)
        exact approximates_afterRound _ fun s answers => ih deck' s answers
      | none =>
        exact Approximates.map _ ((approximates_collectStreetBets s').bind (ih _ _ _))

theorem approximates_runStreets (deck : Deck) (s : GameState n) (firstPreflop : Fin n)
    (answers : List Action) :
    Approximates (runStreetsChecked e deck s firstPreflop answers)
      (runStreets e deck s firstPreflop answers) := by
  refine (approximates_runBettingRound e _ _ _ _).bind ?_
  exact approximates_afterRound _ fun s answers => approximates_runPostflop e _ deck s answers

theorem approximates_antesPosted (s : GameState n) :
    Approximates (antesPostedChecked e s) (antesPosted e s) := by
  rw [antesPostedChecked, antesPosted]
  split_ifs
  · exact approximates_postAntes e s
  · exact approximates_some _

theorem approximates_setupHand (deck : Deck) (s : GameState n)
    (seatKinds : Option (List SeatKind)) :
    Approximates (setupHandChecked e deck s seatKinds) (setupHand e deck s seatKinds) := by
  refine (approximates_antesPosted e s).bind ?_
  refine (approximates_postBlinds e _).bind ?_
  exact approximates_some _

theorem approximates_awardUncontestedAndFinish (s : GameState n) (answers : List Action) :
    Approximates (awardUncontestedAndFinishChecked s answers)
      (awardUncontestedAndFinish s answers) := by
  rw [awardUncontestedAndFinishChecked, awardUncontestedAndFinish]
  cases s.firstStillIn with
  | none => exact approximates_some _
  | some winner => exact (approximates_awardUncontested s winner).bind (approximates_settle _ _ _)

/-- A hand that passes all checks is the hand of the exact engine. -/
theorem approximates_runHand (handId deckSeed : ℕ) (order : Fin 52 → Card)
    (startingStacks : List ℕ) (dealer : ℕ) (seatKinds : Option (List SeatKind))
    (answers : List Action) :
    Approximates (runHandChecked e handId deckSeed order startingStacks dealer seatKinds answers)
      (runHand e handId deckSeed order startingStacks dealer seatKinds answers) := by
  rw [runHandChecked, runHand]
  refine (approximates_setupHand e _ _ _).bind ?_
  cases setupHand e (.new order) (e.initState handId startingStacks dealer) seatKinds with
  | none => exact approximates_some _
  | some opened =>
    obtain ⟨s, deck, canonicalBb, events⟩ := opened
    dsimp only
    cases nextActiveAfter canonicalBb s.players with
    | none =>
      exact Approximates.map _ ((approximates_awardUncontestedAndFinish s answers).map _)
    | some first => exact (approximates_runStreets e deck s first answers).map _

variable {e} {handId deckSeed : ℕ} {order : Fin 52 → Card} {startingStacks : List ℕ}
  {dealer : ℕ} {seatKinds : Option (List SeatKind)} {answers : List Action}
  {hand : List (Output startingStacks.length) × HandOutcome startingStacks.length}

theorem runHand_of_checked
    (h : runHandChecked e handId deckSeed order startingStacks dealer seatKinds answers =
      some hand) :
    runHand e handId deckSeed order startingStacks dealer seatKinds answers = hand :=
  (approximates_runHand e handId deckSeed order startingStacks dealer seatKinds answers hand h).symm

theorem runHandChecked_of_isSome
    (h : (runHandChecked e handId deckSeed order startingStacks dealer seatKinds answers).isSome) :
    runHandChecked e handId deckSeed order startingStacks dealer seatKinds answers =
      some (runHand e handId deckSeed order startingStacks dealer seatKinds answers) := by
  obtain ⟨hand, hhand⟩ := Option.isSome_iff_exists.mp h
  rw [runHand_of_checked hhand, hhand]

variable (e handId deckSeed order startingStacks dealer seatKinds answers hand)

/-- The hand that is played with these answers: no `u32` sum, difference or product overflows
in it and no cast, and each answer is one that was offered. -/
structure PlaysLegally : Prop where
  checked :
    runHandChecked e handId deckSeed order startingStacks dealer seatKinds answers = some hand
  legal : ∀ p ∈ answered hand.1 answers, p.1.legal e p.2

variable {e handId deckSeed order startingStacks dealer seatKinds answers hand}

theorem PlaysLegally.runHand_eq
    (h : PlaysLegally e handId deckSeed order startingStacks dealer seatKinds answers hand) :
    runHand e handId deckSeed order startingStacks dealer seatKinds answers = hand :=
  runHand_of_checked h.checked

/-- A hand that opens without overflow can wait for its first answer. -/
theorem playsLegally_nil
    (h : (runHandChecked e handId deckSeed order startingStacks dealer seatKinds []).isSome) :
    PlaysLegally e handId deckSeed order startingStacks dealer seatKinds []
      (runHand e handId deckSeed order startingStacks dealer seatKinds []) :=
  ⟨runHandChecked_of_isSome h, fun p hp => by simp [answered] at hp⟩

end Hand

end VibePoker.Game
