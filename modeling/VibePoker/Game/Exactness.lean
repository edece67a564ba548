import VibePoker.Game.Betting
import VibePoker.Game.Checks
import VibePoker.Game.Passage
import VibePoker.Game.Slices

/-!
# Hands without overflow

All amounts of a hand are amounts of chips at its table, and no bet or raise is above their
total. In no-limit the largest sum that the engine computes is that of two such amounts,
and the largest amount that it casts to a signed word is the total: below `2 ^ 31` chips
every check of the engine succeeds.

## Main definitions

* `WithinTable` — the amounts of a state are covered by the chips of its table

## Main results

* `WithinTable.performAction` — actions keep this
* `runHand_checked` — a hand with fewer than `2 ^ 31` chips passes all checks
-/

namespace VibePoker.Game

open VibePoker.Core VibePoker.CS VibePoker.Math

variable {n : ℕ} {e : Engine}

/-! ## Seats -/

namespace SeatLedger

variable {start : ℕ} {p : PlayerState}

theorem putChecked_eq (h : SeatLedger start p) (hfits : start < 2 ^ 31) (amount : ℕ) :
    p.putChecked amount = some (p.put amount) := by
  have hstart := h.stack_add
  have hbet := h.bet_le
  have hpaid : min amount p.stack ≤ p.stack := min_le_right _ _
  simp only [PlayerState.putChecked, PlayerState.put, Option.bind_eq_bind]
  rw [subWord_of_le hpaid, addWord_of_lt (by omega), addWord_of_lt (by omega)]
  rfl

theorem putAllInChecked_eq (h : SeatLedger start p) (hfits : start < 2 ^ 31) (amount : ℕ) :
    p.putAllInChecked amount = some (p.putAllIn amount) := by
  rw [PlayerState.putAllInChecked, h.putChecked_eq hfits]
  rfl

end SeatLedger

/-! ## Pots -/

theorem le_sum_start (start : Fin n → ℕ) (i : Fin n) : start i ≤ ∑ j, start j :=
  Finset.single_le_sum (fun _ _ => Nat.zero_le _) (Finset.mem_univ i)

section PotTotal

variable {s : GameState n} (hfits : s.potTotal < 2 ^ 32)
include hfits

theorem streetTotalChecked_of_lt :
    streetTotalChecked s.players = some (∑ i, (s.players i).betThisStreet) := by
  rw [GameState.potTotal] at hfits
  exact sumWord_ofFn_of_lt (by omega)

theorem potTotalChecked_of_lt : s.potTotalChecked = some s.potTotal := by
  have hstreet := streetTotalChecked_of_lt hfits
  rw [GameState.potTotal] at hfits
  simp only [GameState.potTotalChecked, Option.bind_eq_bind]
  rw [totalChecked_of_lt (by omega), hstreet]
  exact addWord_of_lt hfits

theorem collectStreetBetsChecked_of_lt :
    collectStreetBetsChecked s = some (collectStreetBets s) := by
  have hstreet := streetTotalChecked_of_lt hfits
  rw [GameState.potTotal, Pot.total] at hfits
  simp only [collectStreetBetsChecked, Option.bind_eq_bind]
  rw [hstreet, Option.bind_some, addWord_of_lt (by omega)]
  rfl

end PotTotal

/-- Collecting the street bets moves chips within the pot. -/
theorem potTotal_collectStreetBets (s : GameState n) :
    (collectStreetBets s).potTotal = s.potTotal := by
  simp only [GameState.potTotal, collectStreetBets, Pot.total, Finset.sum_const_zero]
  omega

/-- Giving the whole pot to a seat passes all checks if the seat's stack can hold it. -/
theorem awardUncontestedChecked_of_lt {s : GameState n} {winner : Fin n}
    (hfits : (s.players winner).stack + s.potTotal < 2 ^ 32) :
    Engine.awardUncontestedChecked s winner = some (Engine.awardUncontested s winner) := by
  have hcollected := potTotal_collectStreetBets s
  have htotal : (collectStreetBets s).pot.total = s.potTotal := by
    rw [← hcollected, GameState.potTotal]
    simp [collectStreetBets]
  have hstack : ((collectStreetBets s).players winner).stack = (s.players winner).stack := rfl
  simp only [Engine.awardUncontestedChecked, Option.bind_eq_bind]
  rw [collectStreetBetsChecked_of_lt (by omega), Option.bind_some,
    totalChecked_of_lt (by omega), Option.bind_some, addWord_of_lt (by omega), Option.bind_some,
    Engine.awardUncontested]
  congr 3
  funext i
  by_cases hi : i = winner
  · rw [if_pos hi, if_pos hi, hi]
  · rw [if_neg hi, if_neg hi]

namespace Ledger

variable {start : Fin n → ℕ} {s : GameState n}

theorem potTotal_le (h : Ledger start s) : s.potTotal ≤ ∑ i, start i := by
  have hpot := h.potTotal_eq
  have hstart := h.sum_stack_add
  rw [GameState.potTotal]
  omega

variable (hfits : ∑ i, start i < 2 ^ 31)
include hfits

theorem potTotal_lt (h : Ledger start s) : s.potTotal < 2 ^ 32 := by
  have hpot := h.potTotal_le
  omega

theorem potTotalChecked_eq (h : Ledger start s) : s.potTotalChecked = some s.potTotal :=
  potTotalChecked_of_lt (h.potTotal_lt hfits)

theorem collectStreetBetsChecked_eq (h : Ledger start s) :
    collectStreetBetsChecked s = some (collectStreetBets s) :=
  collectStreetBetsChecked_of_lt (h.potTotal_lt hfits)

theorem awardUncontestedChecked_eq (h : Ledger start s) (winner : Fin n) :
    Engine.awardUncontestedChecked s winner = some (Engine.awardUncontested s winner) := by
  have hpot := h.potTotal_le
  have hseat := (h.seat winner).stack_add
  have hle := le_sum_start start winner
  exact awardUncontestedChecked_of_lt (by omega)

end Ledger

section Slices

variable (players : Fin n → PlayerState)

theorem mergeIntoLastChecked_eq {amount : ℕ} {pots : List (ℕ × List (Fin n))}
    (h : potsTotal pots + amount < 2 ^ 32) :
    mergeIntoLastChecked amount pots = some (mergeIntoLast amount pots) := by
  induction pots with
  | nil => rfl
  | cons pot pots ih =>
    rw [potsTotal, List.map_cons, List.sum_cons] at h
    cases pots with
    | nil =>
      simp only [mergeIntoLastChecked, Option.bind_eq_bind]
      rw [addWord_of_lt (by omega)]
      rfl
    | cons next pots =>
      have hrest := ih (by rw [potsTotal]; omega)
      rw [mergeIntoLastChecked, hrest]
      · rfl
      · simp

theorem potsTotal_mergeIntoLast_le (amount : ℕ) (pots : List (ℕ × List (Fin n))) :
    potsTotal (mergeIntoLast amount pots) ≤ potsTotal pots + amount := by
  by_cases hpots : pots = []
  · subst hpots
    exact Nat.zero_le _
  · exact (potsTotal_mergeIntoLast amount hpots).le

/-- The slices fit if they do together. -/
theorem buildPotsFromChecked_eq {prev : ℕ} {levels : List ℕ} {result : List (ℕ × List (Fin n))}
    (hsorted : (prev :: levels).Pairwise (· < ·))
    (h : potsTotal result + (layers (fun i => (players i).totalCommitted) prev levels).sum <
      2 ^ 32) :
    buildPotsFromChecked players prev levels result =
      some (buildPotsFrom players prev levels result) := by
  induction levels generalizing prev result with
  | nil => rfl
  | cons level levels ih =>
    obtain ⟨hprev, hrest⟩ := List.pairwise_cons.mp hsorted
    have hlt : prev < level := hprev level List.mem_cons_self
    rw [layers, List.sum_cons] at h
    -- the slice is one of the layers, so that the bound on their sum bounds it
    have hslice : (level - prev) * contributors players level < 2 ^ 32 := by
      rw [contributors]
      omega
    have hwidth : contributors players level < 2 ^ 32 :=
      (Nat.le_mul_of_pos_left _ (by omega)).trans_lt hslice
    rw [← contributors] at h
    simp only [buildPotsFromChecked, buildPotsFrom, Option.bind_eq_bind]
    rw [subWord_of_le hlt.le, Option.bind_some, asWord_of_lt hwidth, Option.bind_some,
      mulWord_of_lt hslice, Option.bind_some]
    split_ifs with hzero hnone
    · exact ih hrest (by omega)
    · have hmerged :=
        potsTotal_mergeIntoLast_le ((level - prev) * contributors players level) result
      rw [mergeIntoLastChecked_eq (by omega), Option.bind_some]
      exact ih hrest (by omega)
    · refine ih hrest ?_
      rw [potsTotal, List.map_append, List.sum_append, ← potsTotal]
      simp only [List.map_cons, List.map_nil, List.sum_singleton]
      omega

theorem buildShowdownPotsChecked_eq (h : ∑ i, (players i).totalCommitted < 2 ^ 32) :
    buildShowdownPotsChecked players = some (buildShowdownPots players) := by
  refine buildPotsFromChecked_eq players (pairwise_commitmentLevels players) ?_
  rw [sum_layers_committed]
  simpa [potsTotal] using h

/-- The pots hold no more than was committed. -/
theorem potsTotal_buildShowdownPots_le :
    potsTotal (buildShowdownPots players) ≤ ∑ i, (players i).totalCommitted := by
  by_cases hlive : ∃ i, (players i).status ≠ .folded ∧ 0 < (players i).totalCommitted
  · obtain ⟨i, hi, hpos⟩ := hlive
    exact (potsTotal_buildShowdownPots players hi hpos).le
  · push Not at hlive
    rw [buildShowdownPots_eq_nil players fun i hi => Nat.le_zero.mp (hlive i hi)]
    exact Nat.zero_le _

end Slices

/-! ## Actions -/

/-- The amounts of a state are covered by the chips of its table, where the seats started
with `start`. -/
structure WithinTable (start : Fin n → ℕ) (s : GameState n) : Prop where
  ledger : Ledger start s
  currentBet_le : s.currentBet ≤ ∑ i, start i
  minRaise_le : s.minRaiseIncrement ≤ ∑ i, start i
  /-- The short all-ins that are added up have all raised the bet. -/
  cumulative_le : s.cumulativeShortIncrement ≤ s.currentBet

namespace WithinTable

variable {start : Fin n → ℕ} {s s' : GameState n}

theorem congr (h : WithinTable start s) (hplayers : s'.players = s.players)
    (hpot : s'.pot = s.pot) (hbet : s'.currentBet = s.currentBet)
    (hraise : s'.minRaiseIncrement = s.minRaiseIncrement)
    (hshort : s'.cumulativeShortIncrement = s.cumulativeShortIncrement) :
    WithinTable start s' where
  ledger := h.ledger.congr hplayers hpot
  currentBet_le := hbet.trans_le h.currentBet_le
  minRaise_le := hraise.trans_le h.minRaise_le
  cumulative_le := by
    rw [hshort, hbet]
    exact h.cumulative_le

theorem setActionOn (h : WithinTable start s) (seat : Option (Fin n)) :
    WithinTable start (s.setActionOn seat) := h.congr rfl rfl rfl rfl rfl

theorem extendBoard (h : WithinTable start s) (cards : List Card) :
    WithinTable start (s.extendBoard cards) := h.congr rfl rfl rfl rfl rfl

theorem collect (h : WithinTable start s) : WithinTable start (collectStreetBets s) where
  ledger := h.ledger.collect
  currentBet_le := h.currentBet_le
  minRaise_le := h.minRaise_le
  cumulative_le := h.cumulative_le

/-- A new street starts with the big blind, if all bets are collected. -/
theorem beginStreet (h : WithinTable start s) (hbets : ∀ i, (s.players i).betThisStreet = 0)
    (hblind : e.rules.bigBlind ≤ ∑ i, start i) (street : Street) :
    WithinTable start (e.beginStreet s street) where
  ledger := by
    refine h.ledger.congr ?_ rfl
    funext i
    simp [Engine.beginStreet, ← hbets i]
  currentBet_le := Nat.zero_le _
  minRaise_le := hblind
  cumulative_le := le_rfl

/-- What a seat has bet, holds and has committed is covered. -/
theorem seat_le (h : WithinTable start s) (i : Fin n) :
    (s.players i).betThisStreet ≤ (s.players i).totalCommitted ∧
      (s.players i).stack + (s.players i).totalCommitted ≤ ∑ j, start j := by
  have hseat := h.ledger.seat i
  exact ⟨hseat.bet_le, hseat.stack_add.trans_le (le_sum_start start i)⟩

/-- Actions keep the amounts covered. -/
theorem performAction (h : WithinTable start s) {seat : Fin n}
    (hactive : (s.players seat).status = .active) (raw : Action) :
    WithinTable start
      (Engine.performAction s seat (Engine.normalizeAction s seat raw)).1 := by
  have hledger := h.ledger.acted
    (actedBy_performAction ((h.ledger.seat seat).stack_pos hactive) raw)
  obtain ⟨hbet, hstack⟩ := h.seat_le seat
  have hcurrent := h.currentBet_le
  have hraise := h.minRaise_le
  have hshort := h.cumulative_le
  cases hnorm : Engine.normalizeAction s seat raw with
  | fold => exact ⟨hnorm ▸ hledger, hcurrent, hraise, hshort⟩
  | check => exact ⟨hnorm ▸ hledger, hcurrent, hraise, hshort⟩
  | call => exact ⟨hnorm ▸ hledger, hcurrent, hraise, hshort⟩
  | raise amount =>
    obtain ⟨hless, hmin⟩ := normalizeAction_eq_raise hnorm
    refine ⟨hnorm ▸ hledger, ?_, ?_, Nat.zero_le _⟩
    · simp only [Engine.performAction, put_bet_of_raise hnorm]
      omega
    · simp only [Engine.performAction, put_bet_of_raise hnorm]
      omega
  | allIn =>
    rw [hnorm] at hledger
    refine ⟨hledger, ?_, ?_, ?_⟩ <;>
      simp only [Engine.performAction, PlayerState.put_self] <;> split_ifs <;>
      simp only [GameState.setPlayer] <;>
      omega

variable (hfits : ∑ i, start i < 2 ^ 31)
include hfits

theorem normalizeActionChecked_eq (h : WithinTable start s) (seat : Fin n) (action : Action) :
    Engine.normalizeActionChecked s seat action = some (Engine.normalizeAction s seat action) := by
  have hcurrent := h.currentBet_le
  have hraise := h.minRaise_le
  cases action with
  | raise amount =>
    simp only [Engine.normalizeActionChecked, Engine.normalizeAction, Option.bind_eq_bind]
    rw [addWord_of_lt (by omega), Option.bind_some]
    split_ifs <;> rfl
  | _ => rfl

theorem computeLegalActionsChecked_eq (h : WithinTable start s)
    (hvariant : e.rules.variant = .noLimit) (seat : Fin n) (canReopen : Bool) :
    e.computeLegalActionsChecked s seat canReopen =
      some (e.computeLegalActions s seat canReopen) := by
  obtain ⟨hbet, hstack⟩ := h.seat_le seat
  have hcurrent := h.currentBet_le
  have hraise := h.minRaise_le
  have hmin : addWord 32 s.currentBet s.minRaiseIncrement =
      some (s.currentBet + s.minRaiseIncrement) := addWord_of_lt (by omega)
  have htotal : addWord 32 (s.players seat).stack (s.players seat).betThisStreet =
      some ((s.players seat).stack + (s.players seat).betThisStreet) := addWord_of_lt (by omega)
  simp only [Engine.computeLegalActionsChecked, Engine.computeLegalActions, Option.bind_eq_bind,
    hvariant, hmin, htotal, Option.bind_some]
  cases canReopen <;> rfl

theorem performActionChecked_eq (h : WithinTable start s) (seat : Fin n) (raw : Action) :
    Engine.performActionChecked s seat (Engine.normalizeAction s seat raw) =
      some (Engine.performAction s seat (Engine.normalizeAction s seat raw)) := by
  obtain ⟨hbet, hstack⟩ := h.seat_le seat
  have hcurrent := h.currentBet_le
  have hshort := h.cumulative_le
  have hstart : start seat < 2 ^ 31 := (le_sum_start start seat).trans_lt hfits
  cases hnorm : Engine.normalizeAction s seat raw with
  | fold => rfl
  | check => rfl
  | call =>
    simp only [Engine.performActionChecked, Option.bind_eq_bind]
    rw [(h.ledger.seat seat).putAllInChecked_eq hstart]
    rfl
  | raise amount =>
    obtain ⟨hless, hmin⟩ := normalizeAction_eq_raise hnorm
    simp only [Engine.performActionChecked, Option.bind_eq_bind]
    rw [(h.ledger.seat seat).putChecked_eq hstart, Option.bind_some,
      addWord_of_lt (by omega), Option.bind_some, subWord_of_le (by omega)]
    rfl
  | allIn =>
    simp only [Engine.performActionChecked, Engine.performAction, Option.bind_eq_bind,
      PlayerState.put_self]
    rw [addWord_of_lt (by omega), Option.bind_some, addWord_of_lt (by omega), Option.bind_some]
    by_cases hover : (s.players seat).betThisStreet + (s.players seat).stack > s.currentBet
    · rw [if_pos hover, if_pos hover, subWord_of_le hover.le, Option.bind_some,
        addWord_of_lt (by omega), Option.bind_some]
      split_ifs <;> rfl
    · rw [if_neg hover, if_neg hover]

end WithinTable

/-! ## Rounds -/

section Rounds

variable {start : Fin n → ℕ}

namespace Decision

variable {d : Decision n}

theorem observationChecked_eq (h : WithinTable start d.state) (hfits : ∑ i, start i < 2 ^ 31)
    (hvariant : e.rules.variant = .noLimit) :
    d.observationChecked e = some (d.observation e) := by
  simp only [Decision.observationChecked, Option.bind_eq_bind]
  rw [h.computeLegalActionsChecked_eq hfits hvariant]
  rfl

/-- An answer keeps the amounts covered. -/
theorem acted_within (h : WithinTable start d.state)
    (hactive : (d.state.players d.seat).status = .active) (raw : Action) :
    WithinTable start (d.acted raw) := h.performAction hactive raw

theorem answerChecked_eq (h : WithinTable start d.state) (hfits : ∑ i, start i < 2 ^ 31)
    (hactive : (d.state.players d.seat).status = .active) (raw : Action) :
    d.answerChecked raw = some (d.answer raw) := by
  have hpot : (d.acted raw).potTotalChecked = some (d.acted raw).potTotal :=
    (acted_within h hactive raw).ledger.potTotalChecked_eq hfits
  have happlied : Engine.applyActionChecked d.state d.seat
      (Engine.normalizeAction d.state d.seat raw) =
        some (Engine.applyAction d.state d.seat (Engine.normalizeAction d.state d.seat raw)) := by
    simp only [Engine.applyActionChecked, Option.bind_eq_bind]
    rw [h.performActionChecked_eq hfits, Option.bind_some, ← Decision.acted, hpot]
    rfl
  simp only [Decision.answerChecked, Option.bind_eq_bind]
  rw [h.normalizeActionChecked_eq hfits, Option.bind_some, happlied, Option.bind_some,
    Engine.applyAction, ← Decision.acted, hpot]
  rfl

end Decision

theorem observationChecked_asked {s : GameState n} (h : WithinTable start s)
    (hfits : ∑ i, start i < 2 ^ 31) (hvariant : e.rules.variant = .noLimit) (seat : Fin n)
    (hasResponded : Fin n → Bool) :
    Decision.observationChecked e ⟨s.setActionOn (some seat), hasResponded, seat⟩ =
      some (Decision.observation e ⟨s.setActionOn (some seat), hasResponded, seat⟩) :=
  Decision.observationChecked_eq (h.setActionOn (some seat)) hfits hvariant

/-- The amounts that a betting round leaves are covered, and its winner is still in. -/
def RoundOutcome.Within (start : Fin n → ℕ) : RoundOutcome n → Prop
  | .winner seat s _ => WithinTable start s ∧ (s.players seat).stillIn
  | .ended s _ => WithinTable start s
  | _ => True

/-- A betting round passes all checks, and leaves amounts that are covered. -/
theorem runBettingRoundChecked_eq (hfits : ∑ i, start i < 2 ^ 31)
    (hvariant : e.rules.variant = .noLimit) (answers : List Action) (s : GameState n)
    (hasResponded : Fin n → Bool) (current : Fin n) (h : WithinTable start s) :
    runBettingRoundChecked e answers s hasResponded current =
        some (runBettingRound e answers s hasResponded current) ∧
      (runBettingRound e answers s hasResponded current).2.Within start := by
  refine runBettingRound_cases (fun answers s hasResponded current round =>
    WithinTable start s → runBettingRoundChecked e answers s hasResponded current = some round ∧
      round.2.Within start) ?_ ?_ ?_ ?_ answers s hasResponded current h
  · intro answers s hasResponded current hseek h
    refine ⟨?_, h.setActionOn none⟩
    rw [runBettingRoundChecked, hseek]
  · intro answers s hasResponded current seat hseek hblind h
    refine ⟨?_, trivial⟩
    rw [runBettingRoundChecked, hseek]
    simp only [observationChecked_asked h hfits hvariant seat hasResponded, hblind]
  · intro s hasResponded current seat obs hseek hshown h
    refine ⟨?_, trivial⟩
    rw [runBettingRoundChecked, hseek]
    simp only [observationChecked_asked h hfits hvariant seat hasResponded, hshown]
  · intro raw answers s hasResponded current seat obs hseek hshown ih h
    have hasked := h.setActionOn (some seat)
    have hactive : (s.players seat).status = .active := unsettled_active (unsettled_of_seek hseek)
    have hanswer : Decision.answerChecked ⟨s.setActionOn (some seat), hasResponded, seat⟩ raw =
        some (Decision.answer ⟨s.setActionOn (some seat), hasResponded, seat⟩ raw) :=
      Decision.answerChecked_eq hasked hfits hactive raw
    have hacted : WithinTable start
        (Decision.acted ⟨s.setActionOn (some seat), hasResponded, seat⟩ raw) :=
      Decision.acted_within hasked hactive raw
    rw [runBettingRoundChecked, hseek]
    simp only [observationChecked_asked h hfits hvariant seat hasResponded, hshown, hanswer]
    have hcases := Decision.answer_cases ⟨s.setActionOn (some seat), hasResponded, seat⟩ raw
    rcases heq : Decision.answer ⟨s.setActionOn (some seat), hasResponded, seat⟩ raw with
      ⟨made, answer⟩
    rw [heq] at hcases ih
    obtain ⟨-, winner, hwinner, rfl⟩ | ⟨-, -, rfl⟩ | ⟨-, rfl⟩ := hcases
    · exact ⟨by simp [Answer.goOn], hacted, firstStillIn_stillIn hwinner⟩
    · exact ⟨by simp [Answer.goOn], trivial⟩
    · obtain ⟨hlater, hwithin⟩ := ih _ _ _ rfl hacted
      refine ⟨?_, hwithin⟩
      dsimp only
      rw [hlater]
      rfl

end Rounds

/-! ## Awards and results -/

section Results

variable {start : Fin n → ℕ}

/-- A finished hand leaves each seat it reports with at least nothing and at most the chips
of the table. -/
def HandOutcome.Affordable (start : Fin n → ℕ) : HandOutcome n → Prop
  | .finished result _ _ _ => ∀ o ∈ result.seats, ∃ i : Fin n, o.seat = i ∧
      0 ≤ (start i : ℤ) + o.chipDelta ∧ (start i : ℤ) + o.chipDelta ≤ ∑ j, (start j : ℤ)
  | _ => True

namespace Settlement

variable {s : GameState n} {chipDeltas : Fin n → ℤ} (h : Settlement start s chipDeltas)
  (hpaid : ∑ i, chipDeltas i ≤ ∑ i, ((s.players i).totalCommitted : ℤ))
  (hfits : ∑ i, start i < 2 ^ 31)
include h hpaid

/-- A seat is left with at most the chips of the table. -/
theorem left_le (i : Fin n) :
    (start i : ℤ) + (chipDeltas i - (s.players i).totalCommitted) ≤ ∑ j, (start j : ℤ) := by
  have hnet := h.net_le_of_le hpaid i
  have hsplit := Finset.add_sum_erase Finset.univ (fun j => (start j : ℤ)) (Finset.mem_univ i)
  omega

include hfits

/-- All casts of a result are exact. -/
theorem seatOutcomeChecked_eq (i : Fin n) :
    seatOutcomeChecked s chipDeltas i = some (seatOutcome s chipDeltas i) ∧
      (seatOutcome s chipDeltas i).chipDelta = chipDeltas i - (s.players i).totalCommitted := by
  have hleft := h.left_le hpaid i
  have hcommitted := h.committed_le i
  have haward := h.award_nonneg i
  have hstart : (start i : ℤ) < 2 ^ 31 := by exact_mod_cast (le_sum_start start i).trans_lt hfits
  have htotal : ∑ j, (start j : ℤ) < 2 ^ 31 := by exact_mod_cast hfits
  have hawardFits : toI32 (chipDeltas i) = chipDeltas i := toI32_eq_self (by omega) (by omega)
  have hcommittedFits : toI32 (s.players i).totalCommitted = (s.players i).totalCommitted :=
    toI32_eq_self (by omega) (by omega)
  have hdelta : (seatOutcome s chipDeltas i).chipDelta =
      chipDeltas i - (s.players i).totalCommitted := by
    rw [chipDelta_eq_toI32]
    exact toI32_eq_self (by omega) (by omega)
  refine ⟨?_, hdelta⟩
  simp only [seatOutcomeChecked, Option.bind_eq_bind]
  rw [asSigned_of_mem (by omega) (by omega), Option.bind_some,
    asSigned_of_mem (by omega) (by omega), Option.bind_some,
    asSigned_of_mem (by omega) (by omega), Option.bind_some, ← hdelta]
  rfl

theorem settleChecked_eq (rest : List Action) :
    settleChecked s chipDeltas rest = some (settle s chipDeltas rest) ∧
      (settle s chipDeltas rest).Affordable start := by
  constructor
  · have hseats : seatOutcomeChecked s chipDeltas = fun i => pure (seatOutcome s chipDeltas i) :=
      funext fun i => (h.seatOutcomeChecked_eq hpaid hfits i).1
    simp only [settleChecked, buildResultChecked, Option.bind_eq_bind]
    rw [hseats, List.mapM_pure]
    rfl
  · intro o ho
    obtain ⟨i, -, rfl⟩ := List.mem_map.mp ho
    have hdelta := (h.seatOutcomeChecked_eq hpaid hfits i).2
    have hleft := h.left_le hpaid i
    have hcommitted := h.committed_le i
    have haward := h.award_nonneg i
    refine ⟨i, rfl, ?_, ?_⟩ <;> rw [hdelta] <;> omega

end Settlement

/-- A showdown pays no more than was committed. -/
theorem sum_awards_le {s : GameState n} {chipDeltas : Fin n → ℤ}
    (h : e.awardPots s (buildShowdownPots s.players) = some chipDeltas) :
    ∑ i, chipDeltas i ≤ ∑ i, ((s.players i).totalCommitted : ℤ) := by
  rw [(awards_spec h).1]
  exact_mod_cast potsTotal_buildShowdownPots_le s.players

/-- A showdown of seats with fewer than `2 ^ 32` chips together passes all checks. -/
theorem resolveShowdownChecked_of_lt {s : GameState n}
    (h : ∑ i, ((s.players i).stack + (s.players i).totalCommitted) < 2 ^ 32) :
    e.resolveShowdownChecked s = some (e.resolveShowdown s) := by
  have hstacks := h
  rw [Finset.sum_add_distrib] at hstacks
  rw [Engine.resolveShowdownChecked, Engine.resolveShowdown]
  split_ifs with hboard
  · simp only [Option.bind_eq_bind]
    rw [buildShowdownPotsChecked_eq s.players (by omega), Option.bind_some]
    cases hawards : e.awardPots s (buildShowdownPots s.players) with
    | none => rfl
    | some chipDeltas =>
      obtain ⟨-, hnonneg, -⟩ := awards_spec hawards
      have hpaid := sum_awards_le hawards
      have hpaidOut : collect (fun i => wordOfInt 32 ((s.players i).stack + chipDeltas i)) =
          some fun i => ((s.players i).stack + chipDeltas i).toNat := by
        refine collect_eq_some fun i => ?_
        have haward : chipDeltas i ≤ ∑ j, chipDeltas j :=
          Finset.single_le_sum (fun j _ => hnonneg j) (Finset.mem_univ i)
        have hstack : (s.players i).stack ≤ ∑ j, (s.players j).stack :=
          Finset.single_le_sum (f := fun j => (s.players j).stack) (fun _ _ => Nat.zero_le _)
            (Finset.mem_univ i)
        have htotal : ∑ j, ((s.players j).totalCommitted : ℤ) =
            (∑ j, (s.players j).totalCommitted : ℕ) := (Nat.cast_sum _ _).symm
        have := hnonneg i
        exact wordOfInt_of_mem (by omega) (by omega)
      dsimp only
      rw [hpaidOut]
      rfl
  · rfl

/-- A showdown passes all checks. -/
theorem resolveShowdownChecked_eq {s : GameState n} (h : Ledger start s)
    (hfits : ∑ i, start i < 2 ^ 31) :
    e.resolveShowdownChecked s = some (e.resolveShowdown s) := by
  have hstart : ∑ i, ((s.players i).stack + (s.players i).totalCommitted) = ∑ i, start i :=
    Finset.sum_congr rfl fun i _ => (h.seat i).stack_add
  exact resolveShowdownChecked_of_lt (by omega)

/-- The stacks after a showdown that passes the checks fit their words. -/
theorem stack_lt_of_checked {s s' : GameState n} {chipDeltas : Fin n → ℤ}
    (h : e.resolveShowdownChecked s = some (some (s', chipDeltas))) (i : Fin n) :
    (s'.players i).stack < 2 ^ 32 := by
  rw [Engine.resolveShowdownChecked] at h
  split at h
  case isFalse => exact absurd (Option.some.inj h) (Option.some_ne_none _).symm
  simp only [Option.bind_eq_bind, Option.bind_eq_some_iff] at h
  obtain ⟨pots, -, h⟩ := h
  split at h
  · exact absurd (Option.some.inj h) (Option.some_ne_none _).symm
  · obtain ⟨paidOut, hpaidOut, h⟩ := Option.bind_eq_some_iff.mp h
    obtain ⟨rfl, rfl⟩ := Prod.mk.inj (Option.some.inj (Option.some.inj h))
    exact lt_of_wordOfInt (of_collect hpaidOut i)

end Results

/-! ## Streets -/

theorem dealRemainingStreets_eq_some {streets : List (Street × ℕ)} {s s' : GameState n}
    {deck deck' : Deck} (h : (Engine.dealRemainingStreets streets s deck).2 = some (s', deck')) :
    ∃ cards, s' = s.extendBoard cards := by
  induction streets generalizing s deck with
  | nil =>
    obtain ⟨rfl, -⟩ := Prod.mk.inj (Option.some.inj h)
    exact ⟨[], by simp [GameState.extendBoard]⟩
  | cons next streets ih =>
    obtain ⟨street, count⟩ := next
    rw [Engine.dealRemainingStreets] at h
    split_ifs at h
    · obtain ⟨rfl, -⟩ := Prod.mk.inj (Option.some.inj h)
      exact ⟨[], by simp [GameState.extendBoard]⟩
    · split at h
      case h_1 => cases h
      case h_2 s₁ deck₁ event hdeal =>
        obtain ⟨cards, -, rfl, -⟩ := dealBoardCards_board hdeal
        obtain ⟨later, rfl⟩ := ih h
        exact ⟨cards ++ later, by simp [GameState.extendBoard]⟩
    · exact ih h

/-- Dealing the rest of the board changes nothing else. -/
theorem dealRemainingBoard_eq_some {s s' : GameState n} {deck deck' : Deck}
    (h : (Engine.dealRemainingBoard s deck).2 = some (s', deck')) :
    ∃ cards, s' = s.extendBoard cards := by
  rw [Engine.dealRemainingBoard] at h
  split at h
  · obtain ⟨rfl, -⟩ := Prod.mk.inj (Option.some.inj h)
    exact ⟨[], by simp [GameState.extendBoard]⟩
  · simp only [Option.bind_eq_bind, Option.bind_eq_some_iff, Option.some.injEq, Prod.mk.injEq,
      Prod.exists] at h
    obtain ⟨s₁, deck₁, hstreets, cards, _, -, rfl, -⟩ := h
    obtain ⟨earlier, rfl⟩ := dealRemainingStreets_eq_some hstreets
    exact ⟨earlier ++ cards, by simp [GameState.extendBoard]⟩

section Hands

variable {start : Fin n → ℕ}

/-- A part of a hand passes all checks, and leaves the seats with chips of the table. -/
structure PassesChecks (start : Fin n → ℕ) (checked : Option (List (Output n) × HandOutcome n))
    (hand : List (Output n) × HandOutcome n) : Prop where
  checked_eq : checked = some hand
  affordable : hand.2.Affordable start

/-- Changing the outputs needs no check. -/
theorem PassesChecks.map {checked : Option (List (Output n) × HandOutcome n)}
    {hand : List (Output n) × HandOutcome n} (h : PassesChecks start checked hand)
    {f : List (Output n) × HandOutcome n → List (Output n) × HandOutcome n}
    (hf : (f hand).2 = hand.2) : PassesChecks start (checked.map f) (f hand) where
  checked_eq := by
    rw [h.checked_eq]
    rfl
  affordable := by
    rw [hf]
    exact h.affordable

/-- Paying the whole pot to one seat passes all checks. -/
theorem uncontested_checked {s : GameState n} {winner : Fin n} (h : Ledger start s)
    (hin : (s.players winner).stillIn) (hfits : ∑ i, start i < 2 ^ 31) (rest : List Action) :
    let award := Engine.awardUncontested s winner
    Engine.awardUncontestedChecked s winner = some award ∧
      settleChecked award.1 award.2 rest = some (settle award.1 award.2 rest) ∧
      (settle award.1 award.2 rest).Affordable start := by
  obtain ⟨hsettled, hpays⟩ := settlement_of_uncontested h hin
  exact ⟨h.awardUncontestedChecked_eq hfits winner, hsettled.settleChecked_eq hpays.le hfits rest⟩

theorem runShowdown_checked {s : GameState n} (h : WithinTable start s)
    (hfits : ∑ i, start i < 2 ^ 31) (deck : Deck) (answers : List Action) :
    PassesChecks start (runShowdownChecked e deck s answers) (runShowdown e deck s answers) := by
  rw [runShowdownChecked, runShowdown]
  cases hboard : (Engine.dealRemainingBoard s deck).2 with
  | none => exact ⟨rfl, trivial⟩
  | some dealt =>
    obtain ⟨s', deck'⟩ := dealt
    obtain ⟨cards, rfl⟩ := dealRemainingBoard_eq_some hboard
    have hledger := (h.extendBoard cards).ledger
    dsimp only
    rw [resolveShowdownChecked_eq hledger hfits]
    cases hresolve : e.resolveShowdown (s.extendBoard cards) with
    | none => exact ⟨rfl, trivial⟩
    | some resolved =>
      obtain ⟨t, chipDeltas⟩ := resolved
      obtain ⟨hsettled, -⟩ := settlement_of_showdown hledger hresolve
      obtain ⟨-, hawards, rfl⟩ := resolveShowdown_eq_some hresolve
      have hpaid := sum_awards_le hawards
      obtain ⟨hchecked, haffordable⟩ := hsettled.settleChecked_eq hpaid hfits answers
      dsimp only
      rw [hchecked]
      exact ⟨rfl, haffordable⟩

theorem afterRound_checked {round : List (Output n) × RoundOutcome n}
    {proceedChecked : GameState n → List Action → Option (List (Output n) × HandOutcome n)}
    {proceed : GameState n → List Action → List (Output n) × HandOutcome n}
    (h : round.2.Within start) (hfits : ∑ i, start i < 2 ^ 31)
    (hproceed : ∀ s answers, WithinTable start s → PassesChecks start
      (proceedChecked (collectStreetBets s) answers) (proceed (collectStreetBets s) answers)) :
    PassesChecks start (afterRoundChecked round proceedChecked) (afterRound round proceed) := by
  obtain ⟨outputs, outcome⟩ := round
  cases outcome with
  | winner winner s rest =>
    obtain ⟨hwithin, hin⟩ := h
    obtain ⟨haward, hchecked, haffordable⟩ := uncontested_checked hwithin.ledger hin hfits rest
    refine ⟨?_, haffordable⟩
    simp only [afterRoundChecked, afterRound, Option.bind_eq_bind]
    rw [haward, Option.bind_some, hchecked]
    rfl
  | ended s rest =>
    obtain ⟨hlater, haffordable⟩ := hproceed s rest h
    refine ⟨?_, haffordable⟩
    simp only [afterRoundChecked, afterRound, Option.bind_eq_bind]
    rw [WithinTable.ledger h |>.collectStreetBetsChecked_eq hfits, Option.bind_some, hlater]
    rfl
  | waiting => exact ⟨rfl, trivial⟩
  | panicked => exact ⟨rfl, trivial⟩
  | spinning => exact ⟨rfl, trivial⟩

variable (hfits : ∑ i, start i < 2 ^ 31) (hvariant : e.rules.variant = .noLimit)
  (hblind : e.rules.bigBlind ≤ ∑ i, start i)
include hfits hvariant hblind

/-- The streets after a round pass all checks. -/
theorem runPostflop_checked (streets : List (Street × ℕ)) (deck : Deck) {s : GameState n}
    (h : WithinTable start s) (answers : List Action) :
    PassesChecks start (runPostflopChecked e streets deck (collectStreetBets s) answers)
      (runPostflop e streets deck (collectStreetBets s) answers) := by
  induction streets generalizing deck s answers with
  | nil => exact runShowdown_checked h.collect hfits deck answers
  | cons next streets ih =>
    obtain ⟨street, count⟩ := next
    rw [runPostflopChecked, runPostflop]
    split_ifs
    · exact runShowdown_checked h.collect hfits deck answers
    · cases hdeal : Engine.dealBoardCards (e.beginStreet (collectStreetBets s) street) deck count
        street with
      | none => exact ⟨rfl, trivial⟩
      | some dealt =>
        obtain ⟨s₁, deck₁, event⟩ := dealt
        obtain ⟨cards, -, rfl, -⟩ := dealBoardCards_board hdeal
        have hbegun := (h.collect.beginStreet (fun _ => rfl) hblind street).extendBoard cards
        dsimp only
        generalize (e.beginStreet (collectStreetBets s) street).extendBoard cards = t at hbegun ⊢
        refine PassesChecks.map ?_ rfl
        -- the street is played if two seats can act, and its bets are collected either way
        cases Engine.firstToAct t with
        | some first =>
          obtain ⟨hround, hwithin⟩ := runBettingRoundChecked_eq hfits hvariant answers t
            (fun _ => false) first hbegun
          dsimp only
          rw [hround]
          exact afterRound_checked hwithin hfits fun s answers hs => ih deck₁ hs answers
        | none =>
          dsimp only
          rw [hbegun.ledger.collectStreetBetsChecked_eq hfits]
          exact ih deck₁ hbegun answers

theorem runStreets_checked (deck : Deck) {s : GameState n} (h : WithinTable start s)
    (first : Fin n) (answers : List Action) :
    PassesChecks start (runStreetsChecked e deck s first answers)
      (runStreets e deck s first answers) := by
  obtain ⟨hround, hwithin⟩ := runBettingRoundChecked_eq hfits hvariant answers s
    (fun _ => false) first h
  rw [runStreetsChecked, hround]
  exact afterRound_checked hwithin hfits fun s answers hs =>
    runPostflop_checked hfits hvariant hblind Engine.postflop deck hs answers

end Hands

/-! ## Forced bets -/

section ForcedBets

variable {start : Fin n → ℕ} {s : GameState n}

theorem SeatLedger.postAnte {stack : ℕ} {p : PlayerState} (h : SeatLedger stack p) :
    SeatLedger stack (e.postAnte p) := by
  rw [Engine.postAnte]
  split
  · exact h.putAllIn _
  · exact h

theorem SeatLedger.post {seat i : Fin n} (h : ∀ i, SeatLedger (start i) (s.players i))
    (amount : ℕ) : SeatLedger (start i) ((Engine.post s seat amount).1.players i) := by
  rw [Engine.post, setPlayer_players]
  split
  case isTrue hi =>
    subst hi
    exact (h i).putAllIn amount
  case isFalse => exact h i

variable (h : ∀ i, SeatLedger (start i) (s.players i)) (hfits : ∀ i, start i < 2 ^ 31)
include h hfits

theorem antesPostedChecked_eq : antesPostedChecked e s = some (antesPosted e s) := by
  rw [antesPostedChecked, antesPosted]
  split
  · have hplayers : collect (fun i => e.postAnteChecked (s.players i)) =
        some fun i => e.postAnte (s.players i) := by
      refine collect_eq_some fun i => ?_
      rw [Engine.postAnteChecked, Engine.postAnte]
      split
      · exact (h i).putAllInChecked_eq (hfits i) _
      · rfl
    rw [Engine.postAntesChecked, hplayers]
    rfl
  · rfl

theorem postChecked_eq (seat : Fin n) (amount : ℕ) :
    Engine.postChecked s seat amount = some (Engine.post s seat amount) := by
  rw [Engine.postChecked, (h seat).putAllInChecked_eq (hfits seat)]
  rfl

theorem postBlindsChecked_eq : e.postBlindsChecked s = some (e.postBlinds s) := by
  rw [Engine.postBlindsChecked, Engine.postBlinds]
  split_ifs with hseats
  · have hsb : ∀ i, SeatLedger (start i)
        ((Engine.post s ⟨sbSeat s, hseats.1⟩ e.rules.smallBlind).1.players i) :=
      fun i => .post h _
    simp only [Option.bind_eq_bind]
    rw [postChecked_eq h hfits, Option.bind_some, postChecked_eq hsb hfits]
    rfl
  · rfl

theorem setupHandChecked_eq (deck : Deck) (seatKinds : Option (List SeatKind)) :
    setupHandChecked e deck s seatKinds = some (setupHand e deck s seatKinds) := by
  have hantes : ∀ i, SeatLedger (start i) ((antesPosted e s).1.players i) := by
    intro i
    rw [antesPosted]
    split
    · exact (h i).postAnte
    · exact h i
  simp only [setupHandChecked, Option.bind_eq_bind]
  rw [antesPostedChecked_eq h hfits, Option.bind_some, postBlindsChecked_eq hantes hfits]
  rfl

end ForcedBets

/-! ## The whole hand -/

/-- A no-limit hand of seats that hold the big blind, and fewer than `2 ^ 31` chips
together, passes all checks. -/
theorem runHand_checked (hvariant : e.rules.variant = .noLimit) {startingStacks : List ℕ}
    (hblind : ∀ stack ∈ startingStacks, e.rules.bigBlind ≤ stack)
    (hfits : startingStacks.sum < 2 ^ 31) (handId deckSeed : ℕ) (order : Fin 52 → Card)
    (dealer : ℕ) (seatKinds : Option (List SeatKind)) (answers : List Action) :
    PassesChecks startingStacks.get
      (runHandChecked e handId deckSeed order startingStacks dealer seatKinds answers)
      (runHand e handId deckSeed order startingStacks dealer seatKinds answers) := by
  have hsum : ∑ i, startingStacks.get i < 2 ^ 31 := by
    simpa [Fin.sum_univ_getElem] using hfits
  have hfresh : ∀ i, SeatLedger (startingStacks.get i)
      ((e.initState handId startingStacks dealer).players i) := fun i => .freshPlayer _
  have hsetup := setupHandChecked_eq (e := e) hfresh
    (fun i => (le_sum_start startingStacks.get i).trans_lt hsum) (.new order) seatKinds
  simp only [runHandChecked, runHand, Option.bind_eq_bind]
  rw [hsetup, Option.bind_some]
  cases hopened : setupHand e (.new order) (e.initState handId startingStacks dealer)
    seatKinds with
  | none => exact ⟨rfl, trivial⟩
  | some opened =>
    obtain ⟨s, deck, canonicalBb, events⟩ := opened
    have hstart := opened_of_setupHand (Nat.zero_le 52) hopened
    dsimp only
    refine PassesChecks.map ?_ (reportEnd_snd _)
    -- with nobody left to act the hand is awarded without a street
    cases nextActiveAfter canonicalBb s.players with
    | none =>
      rw [awardUncontestedAndFinishChecked, awardUncontestedAndFinish]
      cases hwinner : s.firstStillIn with
      | none => exact ⟨rfl, trivial⟩
      | some winner =>
        obtain ⟨haward, hchecked, haffordable⟩ :=
          uncontested_checked hstart.ledger (firstStillIn_stillIn hwinner) hsum answers
        refine ⟨?_, haffordable⟩
        simp only [Option.bind_eq_bind]
        rw [haward, Option.bind_some, hchecked]
        rfl
    | some first =>
      have hbb : e.rules.bigBlind ≤ ∑ i, startingStacks.get i :=
        (hblind _ (List.get_mem _ _)).trans (le_sum_start startingStacks.get first)
      refine runStreets_checked hsum hvariant hbb deck ⟨hstart.ledger, ?_, ?_, ?_⟩ first answers
      · exact hstart.currentBet_eq.trans_le hbb
      · exact hstart.minRaise_eq.trans_le hbb
      · exact hstart.cumulative_eq.trans_le (Nat.zero_le _)

end VibePoker.Game
