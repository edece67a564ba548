import VibePoker.Game.Exactness
import VibePoker.Game.Levels

/-!
# Settling any commitments

A showdown settles whatever the seats have committed, whatever statuses and stacks they
have, as long as a seat that has not folded has committed chips: there is a pot for each
level that such a seat reaches, and each pot is paid to the strongest of the hands that
reach it. Only chip amounts beyond 32 bits get in the way.

## Main definitions

* `Settles` — what a showdown should pay for what was committed
* `AwardsUncontested` — it pays what giving the whole pot to one seat pays

## Main results

* `resolveShowdown_settles` — every showdown whose amounts fit settles, and those of seats
  with fewer than `2 ^ 32` chips together do fit
* `not_settled_overflow` — two seats whose commitments do not fit
-/

namespace VibePoker.Game

open VibePoker.Core VibePoker.CS

variable {n : ℕ} {e : Engine}

/-! ## The statement -/

/-- Only seat `i` has not folded. -/
def OnlyUnfolded (s : GameState n) (i : Fin n) : Prop :=
  ∀ j, (s.players j).status ≠ .folded ↔ j = i

/-- The amounts `chipDeltas` settle what the seats have committed. -/
structure Settles (e : Engine) (s : GameState n) (chipDeltas : Fin n → ℤ) : Prop where
  sum_eq : ∑ i, chipDeltas i = ∑ i, ((s.players i).totalCommitted : ℤ)
  folded_eq_zero : ∀ i, (s.players i).status = .folded → chipDeltas i = 0
  /-- There is a pot for each level that a seat which has not folded reaches. -/
  pots_eq : buildShowdownPots s.players = (contestedLevels s.players).map fun level =>
    (potAt s.players level, eligibleSeats s.players level)
  /-- Each pot is split among the strongest of the hands that reach its level. -/
  by_level : ∃ awards : ℕ → Fin n → ℤ,
    (∀ i, chipDeltas i = ((contestedLevels s.players).map fun level => awards level i).sum) ∧
      ∀ level ∈ contestedLevels s.players,
        PaysPot e s.board s.players
            (potAt s.players level, eligibleSeats s.players level) (awards level) ∧
          ∀ i, awards level i ≠ 0 → level ≤ (s.players i).totalCommitted
  only_unfolded : ∀ i, OnlyUnfolded s i → ∀ j,
    chipDeltas j = if j = i then ∑ k, ((s.players k).totalCommitted : ℤ) else 0

/-- A showdown that ends in `s'` does what giving the whole pot to seat `i` does. -/
structure AwardsUncontested (s s' : GameState n) (chipDeltas : Fin n → ℤ) (i : Fin n) :
    Prop where
  checked_eq : Engine.awardUncontestedChecked s i = some (Engine.awardUncontested s i)
  deltas_eq : (Engine.awardUncontested s i).2 = chipDeltas
  stack_eq : ∀ j, ((Engine.awardUncontested s i).1.players j).stack = (s'.players j).stack

/-! ## Paying by level -/

section Paying

variable {s s' : GameState n} {chipDeltas : Fin n → ℤ}

/-- The awards of a showdown, by level. -/
theorem awards_by_level (h : e.awardPots s (buildShowdownPots s.players) = some chipDeltas) :
    ∃ awards : ℕ → Fin n → ℤ,
      (∀ i, chipDeltas i = ((contestedLevels s.players).map fun level => awards level i).sum) ∧
        ∀ level ∈ contestedLevels s.players,
          PaysPot e s.board s.players
              (potAt s.players level, eligibleSeats s.players level) (awards level) ∧
            ∀ i, awards level i ≠ 0 → level ≤ (s.players i).totalCommitted := by
  rw [buildShowdownPots_eq_map] at h
  refine ⟨fun level => Engine.splitPot s.dealer (potAt s.players level)
    (strongest e s.board s.players (eligibleSeats s.players level)), fun i => ?_,
    fun level hmem => ?_⟩
  · rw [chipDeltas_eq_splitPots h, List.map_map]
    rfl
  · obtain ⟨hpos, hle, -⟩ := mem_contestedLevels.mp hmem
    have hne : strongest e s.board s.players (eligibleSeats s.players level) ≠ [] :=
      strongest_ne_nil ((eligibleSeats_ne_nil_iff hpos).mpr hle)
    have hnodup : (eligibleSeats s.players level).Nodup := (List.nodup_finRange _).filter _
    obtain ⟨htotal, hnonneg, hzero, hshare⟩ :=
      splitPot_spec s.dealer (potAt s.players level) hne (hnodup.filter _)
    refine ⟨⟨htotal, hnonneg, hzero, hshare⟩, fun i hi => ?_⟩
    by_contra hreach
    refine hi (hzero i fun hstrong => hreach ?_)
    exact ((mem_eligibleSeats s.players).mp (mem_strongest hstrong)).1

/-- Paying the pots settles what was committed. -/
theorem settles_of_awardPots {i : Fin n} (hi : (s.players i).status ≠ .folded)
    (hpos : 0 < (s.players i).totalCommitted)
    (h : e.awardPots s (buildShowdownPots s.players) = some chipDeltas) :
    Settles e s chipDeltas := by
  obtain ⟨hsum, -, hzero⟩ := awards_spec h
  have hcommitted : ∑ j, chipDeltas j = ∑ j, ((s.players j).totalCommitted : ℤ) := by
    rw [hsum, potsTotal_buildShowdownPots s.players hi hpos]
    exact Nat.cast_sum _ _
  refine ⟨hcommitted, fun j hj => hzero j (Or.inl hj), buildShowdownPots_eq_map _,
    awards_by_level h, fun k honly j => ?_⟩
  -- all others have folded, so that the seat is paid all that is paid
  have hothers : ∀ j, j ≠ k → chipDeltas j = 0 :=
    fun j hj => hzero j (Or.inl (not_not.mp fun hstatus => hj ((honly j).mp hstatus)))
  split
  case isTrue hj =>
    subst hj
    rw [← hcommitted]
    exact (Finset.sum_eq_single j (fun l _ hl => hothers l hl) (by simp)).symm
  case isFalse hj => exact hothers j hj

/-- A lone seat is paid as if the others had folded before the showdown. -/
theorem awardsUncontested_of_settles {i : Fin n} (h : Settles e s chipDeltas)
    (honly : OnlyUnfolded s i) (hpot : s.potTotal = ∑ j, (s.players j).totalCommitted)
    (hstack : ∀ j, ((s'.players j).stack : ℤ) = (s.players j).stack + chipDeltas j)
    (hfits : (s'.players i).stack < 2 ^ 32) : AwardsUncontested s s' chipDeltas i := by
  have hdelta := h.only_unfolded i honly
  have hcast : ∑ k, ((s.players k).totalCommitted : ℤ) =
      (∑ k, (s.players k).totalCommitted : ℕ) := (Nat.cast_sum _ _).symm
  have htotal : (collectStreetBets s).pot.total = s.potTotal := by
    rw [← potTotal_collectStreetBets s, GameState.potTotal]
    simp [collectStreetBets]
  refine ⟨awardUncontestedChecked_of_lt ?_, ?_, fun j => ?_⟩
  · have hwinner := hdelta i
    rw [if_pos rfl] at hwinner
    have := hstack i
    omega
  · funext j
    simp only [Engine.awardUncontested, htotal, hpot, hdelta j, hcast]
  · have hpaid := hdelta j
    have hnew := hstack j
    simp only [Engine.awardUncontested, htotal, hpot]
    split
    case isTrue hj =>
      subst hj
      rw [if_pos rfl] at hpaid
      simp only [collectStreetBets]
      omega
    case isFalse hj =>
      rw [if_neg hj] at hpaid
      simp only [collectStreetBets]
      omega

end Paying

/-! ## Every showdown -/

/-- A showdown that a seat with chips in it has not folded settles what was committed,
unless its amounts overflow; they do not if the seats have fewer than `2 ^ 32` chips
together. -/
theorem resolveShowdown_settles (e : Engine) (s : GameState n) (hboard : s.board.length = 5)
    (hlive : ∃ i, (s.players i).status ≠ .folded ∧ 0 < (s.players i).totalCommitted)
    (hcards : ∀ i, (s.players i).status ≠ .folded → 0 < (s.players i).totalCommitted →
      (s.players i).holeCards ≠ none) :
    (∀ result, e.resolveShowdownChecked s = some result →
      ∃ s' chipDeltas, result = some (s', chipDeltas) ∧ Settles e s chipDeltas ∧
        (∀ i, ((s'.players i).stack : ℤ) = (s.players i).stack + chipDeltas i) ∧
        ∀ i, OnlyUnfolded s i → s.potTotal = ∑ j, (s.players j).totalCommitted →
          AwardsUncontested s s' chipDeltas i) ∧
    (e.resolveShowdownChecked s = none →
      2 ^ 32 ≤ ∑ i, ((s.players i).stack + (s.players i).totalCommitted)) := by
  obtain ⟨live, hstatus, hpos⟩ := hlive
  refine ⟨fun result hresult => ?_, fun hoverflow => ?_⟩
  · have hexact := approximates_resolveShowdown e s result hresult
    -- a seat is eligible for a pot only with chips in it, and such a seat holds cards
    have heligible : ∀ pot ∈ buildShowdownPots s.players, ∀ i ∈ pot.2,
        (s.players i).holeCards ≠ none := by
      intro pot hpot i hi
      obtain ⟨-, -, level, hlevel, heq⟩ := isPot_of_mem s.players hpot
      rw [heq, mem_eligibleSeats] at hi
      exact hcards i hi.2 (hlevel.trans_le hi.1)
    obtain ⟨chipDeltas, hawards⟩ := awardPots_isSome (e := e) heligible
    have hsettles := settles_of_awardPots hstatus hpos hawards
    have hnonneg := (awards_spec hawards).2.1
    have hresolve : e.resolveShowdown s = some ({ s with
        players := fun i => { s.players i with
          stack := ((s.players i).stack + chipDeltas i).toNat } }, chipDeltas) := by
      rw [Engine.resolveShowdown, if_pos hboard, hawards]
      rfl
    have hstack : ∀ i, ((((s.players i).stack + chipDeltas i).toNat : ℕ) : ℤ) =
        (s.players i).stack + chipDeltas i := by
      intro i
      have := hnonneg i
      exact Int.toNat_of_nonneg (by omega)
    refine ⟨_, _, hexact.trans hresolve, hsettles, hstack, fun i honly hpot => ?_⟩
    refine awardsUncontested_of_settles hsettles honly hpot hstack ?_
    rw [hexact, hresolve] at hresult
    exact stack_lt_of_checked hresult i
  · by_contra hfits
    rw [resolveShowdownChecked_of_lt (by omega)] at hoverflow
    exact Option.some_ne_none _ hoverflow

/-! ## Two showdowns -/

/-- A showdown on the river, of seats that hold cards. -/
def riverShowdown (seats : Fin n → PlayerState) : GameState n :=
  { handId := 0
    street := .showdown
    board := [⟨0⟩, ⟨5⟩, ⟨10⟩, ⟨15⟩, ⟨20⟩]
    players := seats
    pot := { main := ∑ i, (seats i).totalCommitted }
    actionOn := none
    dealer := 0
    lastAggressor := none
    currentBet := 0
    minRaiseIncrement := 0
    cumulativeShortIncrement := 0
    satOut := fun _ => false }

/-- An engine for which all hands tie. -/
def allTie : Engine := ⟨.noLimitHoldem 1 2, ⟨fun _ => 0⟩⟩

/-- A seat with a stack and a commitment. -/
def committedSeat (cards : Card × Card) (stack committed : ℕ) (status : PlayerStatus) :
    PlayerState :=
  { stack := stack
    holeCards := some cards
    betThisStreet := 0
    totalCommitted := committed
    status := status }

/-- A short seat that is all-in against a seat that folded for more. -/
def foldedDeeper : GameState 3 :=
  riverShowdown ![committedSeat (⟨50⟩, ⟨51⟩) 0 50 .allIn, committedSeat (⟨40⟩, ⟨41⟩) 70 100 .folded,
    committedSeat (⟨30⟩, ⟨31⟩) 20 80 .active]

theorem foldedDeeper_settles :
    ∃ s' chipDeltas, allTie.resolveShowdownChecked foldedDeeper = some (some (s', chipDeltas)) ∧
      Settles allTie foldedDeeper chipDeltas := by
  obtain ⟨hsettles, hfits⟩ := resolveShowdown_settles allTie foldedDeeper rfl ⟨0, by decide⟩
    (by decide)
  cases hresult : allTie.resolveShowdownChecked foldedDeeper with
  | none => exact absurd (hfits hresult) (by decide)
  | some result =>
    obtain ⟨s', chipDeltas, rfl, hdone, -⟩ := hsettles result hresult
    exact ⟨s', chipDeltas, rfl, hdone⟩

/-- Two seats that have committed `2 ^ 31` chips each. -/
def hugeCommitments : GameState 2 :=
  riverShowdown ![committedSeat (⟨50⟩, ⟨51⟩) 0 (2 ^ 31) .active,
    committedSeat (⟨40⟩, ⟨41⟩) 0 (2 ^ 31) .active]

/-- The only slice does not fit its word. -/
theorem not_settled_overflow :
    hugeCommitments.board.length = 5 ∧
      (∀ i, (hugeCommitments.players i).status ≠ .folded ∧
        0 < (hugeCommitments.players i).totalCommitted ∧
          (hugeCommitments.players i).holeCards ≠ none) ∧
      ∀ e : Engine, ¬ ∃ s' chipDeltas,
        e.resolveShowdownChecked hugeCommitments = some (some (s', chipDeltas)) ∧
          Settles e hugeCommitments chipDeltas := by
  refine ⟨rfl, by decide, fun e => ?_⟩
  have hpots : buildShowdownPotsChecked hugeCommitments.players = none := by decide +kernel
  rintro ⟨s', chipDeltas, hresult, -⟩
  rw [Engine.resolveShowdownChecked, hpots] at hresult
  exact absurd hresult (by simp [hugeCommitments, riverShowdown])

end VibePoker.Game
