import VibePoker.Game.Ledger
import VibePoker.Game.Pots

/-!
# Settling a hand

At a terminal node the stacks are the starting stacks less what was committed
plus the awards. The reported `chip_delta` is the difference of the two stacks,
as far as it fits the type in which it is computed.

## Main definitions

* `Settlement` — the accounts of a terminal node

## Main results

* `settlement_of_uncontested`, `settlement_of_showdown` — both ways of ending a
  hand leave such accounts
* `Settlement.sum_chipDelta` — the reported deltas add up to zero
-/

namespace VibePoker.Game

open VibePoker.Core VibePoker.CS VibePoker.Math

variable {n : ℕ} {e : Engine}

/-! ## Terminal accounts -/

/-- The accounts of a terminal node with awards `chipDeltas`. -/
structure Settlement (start : Fin n → ℕ) (s : GameState n) (chipDeltas : Fin n → ℤ) : Prop where
  committed_le : ∀ i, (s.players i).totalCommitted ≤ start i
  stack_eq : ∀ i, ((s.players i).stack : ℤ) =
    start i - (s.players i).totalCommitted + chipDeltas i
  award_nonneg : ∀ i, 0 ≤ chipDeltas i
  out_eq : ∀ i, (s.players i).status = .out →
    (s.players i).totalCommitted = 0 ∧ chipDeltas i = 0

/-- Nothing that was committed is lost. -/
def PaysOut (s : GameState n) (chipDeltas : Fin n → ℤ) : Prop :=
  ∑ i, chipDeltas i = ∑ i, ((s.players i).totalCommitted : ℤ)

theorem firstStillIn_stillIn {s : GameState n} {winner : Fin n}
    (h : s.firstStillIn = some winner) : (s.players winner).stillIn := by
  rw [GameState.firstStillIn] at h
  simpa using List.find?_some h

theorem exists_stillIn {s : GameState n} (h : 0 < s.playersStillIn) :
    ∃ i, (s.players i).stillIn := by
  obtain ⟨i, hi⟩ := Finset.card_pos.mp h
  exact ⟨i, by simpa using hi⟩

theorem stillIn_ne_out {p : PlayerState} (h : p.stillIn) : p.status ≠ .out := by
  intro hout
  simp [PlayerState.stillIn, hout] at h

theorem stillIn_ne_folded {p : PlayerState} (h : p.stillIn) : p.status ≠ .folded := by
  intro hfolded
  simp [PlayerState.stillIn, hfolded] at h

theorem SeatLedger.committed_le {start : ℕ} {p : PlayerState} (h : SeatLedger start p) :
    p.totalCommitted ≤ start := by
  have := h.stack_add
  omega

theorem SeatLedger.committed_eq_zero {start : ℕ} {p : PlayerState} (h : SeatLedger start p)
    (hout : p.status = .out) : p.totalCommitted = 0 := by
  have := h.stack_add
  have := h.start_eq hout
  omega

/-- Giving the whole pot to one seat pays out everything that was committed. -/
theorem settlement_of_uncontested {start : Fin n → ℕ} {s : GameState n} {winner : Fin n}
    (h : Ledger start s) (hin : (s.players winner).stillIn) :
    Settlement start (Engine.awardUncontested s winner).1 (Engine.awardUncontested s winner).2 ∧
      PaysOut (Engine.awardUncontested s winner).1 (Engine.awardUncontested s winner).2 := by
  have htotal : (collectStreetBets s).pot.total = ∑ i, (s.players i).totalCommitted := by
    rw [← h.potTotal_eq]
    simp only [collectStreetBets, Pot.total]
    omega
  have hplayers : ∀ i, ((Engine.awardUncontested s winner).1.players i).totalCommitted =
      (s.players i).totalCommitted ∧
      ((Engine.awardUncontested s winner).1.players i).status = (s.players i).status ∧
      (((Engine.awardUncontested s winner).1.players i).stack : ℤ) =
        (s.players i).stack + (Engine.awardUncontested s winner).2 i := by
    intro i
    simp only [Engine.awardUncontested]
    split
    · exact ⟨rfl, rfl, by simp [collectStreetBets]⟩
    · exact ⟨rfl, rfl, by simp [collectStreetBets]⟩
  refine ⟨⟨fun i => ?_, fun i => ?_, fun i => ?_, fun i hout => ?_⟩, ?_⟩
  · rw [(hplayers i).1]
    exact (h.seat i).committed_le
  · have := (h.seat i).stack_add
    rw [(hplayers i).1, (hplayers i).2.2]
    omega
  · simp only [Engine.awardUncontested]
    split <;> positivity
  · rw [(hplayers i).2.1] at hout
    rw [(hplayers i).1]
    refine ⟨(h.seat i).committed_eq_zero hout, if_neg fun hi => ?_⟩
    exact stillIn_ne_out hin (hi ▸ hout)
  · simp only [PaysOut, (hplayers _).1]
    simp only [Engine.awardUncontested, Finset.sum_ite_eq', Finset.mem_univ, if_true, htotal]
    exact Nat.cast_sum _ _

/-- A showdown leaves the accounts in order, and pays out everything if a seat
that is not folded committed anything, or nobody did. -/
theorem settlement_of_showdown {start : Fin n → ℕ} {s s' : GameState n} {chipDeltas : Fin n → ℤ}
    (h : Ledger start s) (hresolve : e.resolveShowdown s = some (s', chipDeltas)) :
    Settlement start s' chipDeltas ∧
      ((∃ i, (s.players i).status ≠ .folded ∧ 0 < (s.players i).totalCommitted) ∨
          (∀ i, (s.players i).totalCommitted = 0) ↔ PaysOut s' chipDeltas) := by
  obtain ⟨-, hawards, rfl⟩ := resolveShowdown_eq_some hresolve
  obtain ⟨hsum, hnonneg, hzero⟩ := awards_spec hawards
  refine ⟨⟨fun i => (h.seat i).committed_le, fun i => ?_, hnonneg, fun i hout => ?_⟩, ?_, ?_⟩
  · have := (h.seat i).stack_add
    have := hnonneg i
    dsimp only
    rw [Int.toNat_of_nonneg (by omega)]
    omega
  · have hcommitted := (h.seat i).committed_eq_zero hout
    exact ⟨hcommitted, hzero i (Or.inr hcommitted)⟩
  · rw [PaysOut, hsum]
    rintro (⟨i, hi, hpos⟩ | hnone)
    · rw [potsTotal_buildShowdownPots s.players hi hpos]
      exact Nat.cast_sum _ _
    · rw [buildShowdownPots_eq_nil s.players fun i _ => hnone i]
      simp [hnone, potsTotal]
  · intro hpays
    -- with every contributor folded no pot is built, and the committed chips are lost
    by_contra hlost
    push Not at hlost
    obtain ⟨hfolded, i, hi⟩ := hlost
    rw [PaysOut, hsum, buildShowdownPots_eq_nil s.players fun i hstatus => by
      have := hfolded i hstatus
      omega] at hpays
    have hpos : 0 < ∑ j, ((s.players j).totalCommitted : ℤ) :=
      Finset.sum_pos' (fun _ _ => Int.natCast_nonneg _) ⟨i, Finset.mem_univ i, by omega⟩
    simp only [potsTotal, List.map_nil, List.sum_nil, Nat.cast_zero] at hpays
    exact hpos.ne hpays

/-! ## Reported deltas -/

theorem toI32_eq_self {x : ℤ} (hlow : -2 ^ 31 ≤ x) (hhigh : x < 2 ^ 31) : toI32 x = x :=
  Int.bmod_eq_of_le (by omega) (by omega)

/-- Computing the delta with wrapping arithmetic only wraps the difference. -/
theorem chipDelta_eq_toI32 (s : GameState n) (chipDeltas : Fin n → ℤ) (i : Fin n) :
    (seatOutcome s chipDeltas i).chipDelta =
      toI32 (chipDeltas i - (s.players i).totalCommitted) := by
  simp only [seatOutcome, toI32, Int.bmod_sub_bmod, Int.sub_bmod_bmod]

/-- Leaving out terms that are zero does not change a sum. -/
theorem sum_map_filter {l : List (Fin n)} {p : Fin n → Bool} {f : Fin n → ℤ}
    (h : ∀ i, p i = false → f i = 0) : ((l.filter p).map f).sum = (l.map f).sum := by
  induction l with
  | nil => rfl
  | cons i l ih =>
    cases hi : p i with
    | true => simp [hi, ih]
    | false => simp [hi, ih, h i hi]

namespace Settlement

variable {start : Fin n → ℕ} {s : GameState n} {chipDeltas : Fin n → ℤ}

/-- No seat wins more than the other seats brought, if no chips are made. -/
theorem net_le_of_le (h : Settlement start s chipDeltas)
    (hpaid : ∑ i, chipDeltas i ≤ ∑ i, ((s.players i).totalCommitted : ℤ)) (i : Fin n) :
    chipDeltas i - (s.players i).totalCommitted ≤ ∑ j ∈ Finset.univ.erase i, (start j : ℤ) := by
  have haward : chipDeltas i ≤ ∑ j, chipDeltas j :=
    Finset.single_le_sum (fun j _ => h.award_nonneg j) (Finset.mem_univ i)
  have hsplit := Finset.add_sum_erase Finset.univ
    (fun j => ((s.players j).totalCommitted : ℤ)) (Finset.mem_univ i)
  have hbrought : ∑ j ∈ Finset.univ.erase i, ((s.players j).totalCommitted : ℤ) ≤
      ∑ j ∈ Finset.univ.erase i, (start j : ℤ) :=
    Finset.sum_le_sum fun j _ => by exact_mod_cast h.committed_le j
  omega

/-- No seat wins more than the other seats brought. -/
theorem net_le (h : Settlement start s chipDeltas) (hpays : PaysOut s chipDeltas) (i : Fin n) :
    chipDeltas i - (s.players i).totalCommitted ≤ ∑ j ∈ Finset.univ.erase i, (start j : ℤ) :=
  h.net_le_of_le hpays.le i

/-- Without other seats with chips nothing is lost. -/
theorem le_net (h : Settlement start s chipDeltas) (hpays : PaysOut s chipDeltas)
    (hfits : ∀ i, ∑ j ∈ Finset.univ.erase i, start j < 2 ^ 31) (i : Fin n) :
    -2 ^ 31 ≤ chipDeltas i - (s.players i).totalCommitted := by
  by_cases halone : ∃ j, j ≠ i
  · obtain ⟨j, hj⟩ := halone
    have hmem : i ∈ Finset.univ.erase j := Finset.mem_erase.mpr ⟨hj.symm, Finset.mem_univ i⟩
    have hle : start i ≤ ∑ k ∈ Finset.univ.erase j, start k :=
      Finset.single_le_sum (fun _ _ => Nat.zero_le _) hmem
    have := hfits j
    have := h.committed_le i
    have := h.award_nonneg i
    omega
  · push Not at halone
    have huniv : (Finset.univ : Finset (Fin n)) = {i} := by
      ext j
      simp [halone j]
    rw [PaysOut, huniv, Finset.sum_singleton, Finset.sum_singleton] at hpays
    omega

/-- The reported delta of a seat is what it won or lost. -/
theorem chipDelta_eq (h : Settlement start s chipDeltas) (hpays : PaysOut s chipDeltas)
    (hfits : ∀ i, ∑ j ∈ Finset.univ.erase i, start j < 2 ^ 31) (i : Fin n) :
    (seatOutcome s chipDeltas i).chipDelta = (s.players i).stack - start i := by
  have hnet := h.net_le hpays i
  have hlow := h.le_net hpays hfits i
  have hfits' : ∑ j ∈ Finset.univ.erase i, (start j : ℤ) < 2 ^ 31 := by exact_mod_cast hfits i
  rw [chipDelta_eq_toI32, toI32_eq_self hlow (hnet.trans_lt hfits'), h.stack_eq i]
  omega

/-- The stacks after a hand that paid out are the chips that were brought. -/
theorem sum_stack (h : Settlement start s chipDeltas) (hpays : PaysOut s chipDeltas) :
    ∑ i, (s.players i).stack = ∑ i, start i := by
  have hsum : ∑ i, ((s.players i).stack : ℤ) = ∑ i, (start i : ℤ) := by
    simp only [h.stack_eq, Finset.sum_add_distrib, Finset.sum_sub_distrib]
    rw [PaysOut] at hpays
    omega
  exact_mod_cast hsum

/-- The reported deltas add up to zero. -/
theorem sum_chipDelta (h : Settlement start s chipDeltas) (hpays : PaysOut s chipDeltas)
    (hfits : ∀ i, ∑ j ∈ Finset.univ.erase i, start j < 2 ^ 31) (handId : ℕ) :
    ((buildResult handId s chipDeltas).seats.map SeatOutcome.chipDelta).sum = 0 := by
  have hstacks : ∑ i, (((s.players i).stack : ℤ) - start i) = 0 := by
    rw [Finset.sum_sub_distrib]
    have := h.sum_stack hpays
    have hcast : ∑ i, ((s.players i).stack : ℤ) = ∑ i, (start i : ℤ) := by exact_mod_cast this
    omega
  -- Seats that were not dealt in neither won nor lost.
  have hout : ∀ i, (s.players i).status = .out → ((s.players i).stack : ℤ) - start i = 0 := by
    intro i hstatus
    obtain ⟨hcommitted, haward⟩ := h.out_eq i hstatus
    rw [h.stack_eq i, hcommitted, haward]
    omega
  rw [buildResult, List.map_map]
  rw [show (SeatOutcome.chipDelta ∘ seatOutcome s chipDeltas) =
    fun i => ((s.players i).stack : ℤ) - start i from funext fun i => h.chipDelta_eq hpays hfits i]
  rw [← hstacks, Fin.sum_univ_def]
  exact sum_map_filter fun i hi => hout i (by simpa using hi)

end Settlement

/-- A hand reports each seat once. -/
theorem nodup_seats (handId : ℕ) (s : GameState n) (chipDeltas : Fin n → ℤ) :
    ((buildResult handId s chipDeltas).seats.map SeatOutcome.seat).Nodup := by
  rw [buildResult, List.map_map]
  exact ((List.nodup_finRange n).filter _).map Fin.val_injective

end VibePoker.Game
