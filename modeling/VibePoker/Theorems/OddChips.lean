import VibePoker.Math.Shares
import VibePoker.Theorems.ShowdownPots

/-!
# Odd chips

A pot, as players see it, is what can be won by the same seats. The engine cuts it at every
commitment, also at those of folded seats, and divides the slices one by one, so the first
winner is given the odd chips of every slice.

## Main definitions

* `SplitsPerPot` — each pot is divided as a whole
* `RemaindersFit` — the odd chips of the slices of a pot do not fill another share

## Main results

* `splitsPerPot_iff` — each pot is divided as a whole exactly if this is so
* `not_splitsPerPot_foldedBlinds` — two folded blinds that cost the other winners a chip each
-/

namespace VibePoker.Game

open VibePoker.Core VibePoker.Math

variable {n : ℕ} {e : Engine}

/-! ## The statement -/

local instance lawfulBEq_seat (n : ℕ) : LawfulBEq (Fin n) := inferInstance

/-- The first of some seats left of the dealer. -/
def firstLeftOf (dealer : ℕ) (winners : List (Fin n)) : Option (Fin n) :=
  (ringAfter n dealer).find? (· ∈ winners)

/-- An amount is divided as a whole: each winner gets its share, and the first of them left
of the dealer all odd chips. -/
def DividesWhole (dealer amount : ℕ) (winners : List (Fin n)) (award : Fin n → ℤ) : Prop :=
  ∀ i, award i =
    if i ∈ winners then
      ((amount / winners.length : ℕ) : ℤ) +
        if firstLeftOf dealer winners = some i then ((amount % winners.length : ℕ) : ℤ) else 0
    else 0

/-- The slices that the given seats can win, and no others. -/
def slicesOf (players : Fin n → PlayerState) (eligible : List (Fin n)) :
    List (ℕ × List (Fin n)) :=
  (buildShowdownPots players).filter fun pot => pot.2 = eligible

/-- The seats that have chips in and have not folded. -/
def contesting (players : Fin n → PlayerState) : List (Fin n) :=
  (List.finRange n).filter fun i =>
    (players i).status ≠ .folded ∧ 0 < (players i).totalCommitted

/-- Odd chips are split per pot. -/
structure SplitsPerPot (e : Engine) (s : GameState n) (chipDeltas : Fin n → ℤ) : Prop where
  /-- What the seats receive from the slices that the same seats can win. -/
  pot : ∀ eligible, ∃ award, e.awardPots s (slicesOf s.players eligible) = some award ∧
    DividesWhole s.dealer (potsTotal (slicesOf s.players eligible))
      (strongest e s.board s.players eligible) award
  /-- With equal commitments and equal hands, payouts differ by the odd chips at most. -/
  even : ∀ committed rank,
    (∀ i ∈ contesting s.players, (s.players i).totalCommitted = committed ∧
      handRank e s.board s.players i = rank) →
    ∀ i ∈ contesting s.players, ∀ j ∈ contesting s.players,
      chipDeltas i - chipDeltas j ≤
        ((∑ k, (s.players k).totalCommitted) % (contesting s.players).length : ℕ)

/-- The contested levels that exactly the given seats can win. -/
def levelsOf (players : Fin n → PlayerState) (eligible : List (Fin n)) : List ℕ :=
  (contestedLevels players).filter fun level => eligibleSeats players level = eligible

/-- Number of winners among the given seats. -/
def winnersOf (e : Engine) (s : GameState n) (eligible : List (Fin n)) : ℕ :=
  (strongest e s.board s.players eligible).length

/-- The odd chips that the slices of a pot leave when each is divided by itself. -/
def oddChips (e : Engine) (s : GameState n) (eligible : List (Fin n)) : ℕ :=
  ((levelsOf s.players eligible).map fun level =>
    potAt s.players level % winnersOf e s eligible).sum

/-- The odd chips of each pot do not fill another share. -/
def RemaindersFit (e : Engine) (s : GameState n) : Prop :=
  ∀ level ∈ contestedLevels s.players,
    oddChips e s (eligibleSeats s.players level) < winnersOf e s (eligibleSeats s.players level)

instance decidableRemaindersFit (e : Engine) (s : GameState n) : Decidable (RemaindersFit e s) :=
  List.decidableBAll _ _

/-! ## One pot -/

theorem splitPot_apply (dealer amount : ℕ) (winners : List (Fin n)) (i : Fin n) :
    Engine.splitPot dealer amount winners i =
      (if i ∈ winners then ((amount / winners.length : ℕ) : ℤ) else 0) +
        if firstLeftOf dealer winners = some i then ((amount % winners.length : ℕ) : ℤ)
        else 0 := by
  simp only [Engine.splitPot, firstLeftOf]
  congr 1
  rcases Nat.eq_zero_or_pos (amount % winners.length) with hzero | hpos
  · simp [hzero]
  · exact if_congr (and_iff_right hpos) rfl rfl

/-- What splitting amounts one by one gives a seat. -/
theorem sum_splitPot (dealer : ℕ) (amounts : List ℕ) (winners : List (Fin n)) (i : Fin n) :
    (amounts.map fun amount => Engine.splitPot dealer amount winners i).sum =
      (if i ∈ winners then (((amounts.map (· / winners.length)).sum : ℕ) : ℤ) else 0) +
        if firstLeftOf dealer winners = some i then
          (((amounts.map (· % winners.length)).sum : ℕ) : ℤ) else 0 := by
  induction amounts with
  | nil => simp
  | cons amount amounts ih =>
    rw [List.map_cons, List.sum_cons, ih, List.map_cons, List.sum_cons, List.map_cons,
      List.sum_cons, splitPot_apply]
    split_ifs <;> omega

theorem firstLeftOf_mem {dealer : ℕ} {winners : List (Fin n)} {i : Fin n}
    (h : firstLeftOf dealer winners = some i) : i ∈ winners := by
  simpa using List.find?_some h

theorem exists_firstLeftOf (dealer : ℕ) {winners : List (Fin n)} (h : winners ≠ []) :
    ∃ i, firstLeftOf dealer winners = some i := by
  obtain ⟨winner, hwinner⟩ := List.exists_mem_of_ne_nil winners h
  obtain ⟨first, hfirst, -⟩ := find?_ringAfter_isSome (p := fun i => decide (i ∈ winners))
    dealer (by simpa using hwinner)
  exact ⟨first, hfirst⟩

/-- Dividing amounts one by one divides their total as a whole exactly if their remainders
do not fill another share. -/
theorem dividesWhole_iff (dealer : ℕ) (amounts : List ℕ) {winners : List (Fin n)}
    (hne : winners ≠ []) :
    DividesWhole dealer amounts.sum winners
        (fun i => (amounts.map fun amount => Engine.splitPot dealer amount winners i).sum) ↔
      (amounts.map (· % winners.length)).sum < winners.length := by
  have hw : 0 < winners.length := List.length_pos_iff.mpr hne
  constructor
  · intro h
    obtain ⟨first, hfirst⟩ := exists_firstLeftOf dealer hne
    have hpaid := h first
    simp only [sum_splitPot, hfirst, if_pos (firstLeftOf_mem hfirst), if_true] at hpaid
    rw [div_sum amounts hw, mod_sum amounts winners.length] at hpaid
    -- the first winner is paid all odd chips, which is a share and the rest of a share
    have hodd : (amounts.map (· % winners.length)).sum =
        (amounts.map (· % winners.length)).sum / winners.length +
          (amounts.map (· % winners.length)).sum % winners.length := by omega
    exact sum_mod_lt_of_eq amounts hw hodd
  · intro h i
    dsimp only
    rw [sum_splitPot, (div_sum_eq_iff amounts hw).mpr h, mod_sum_of_lt amounts h]
    by_cases hi : i ∈ winners
    · rw [if_pos hi, if_pos hi]
    · rw [if_neg hi, if_neg hi, if_neg fun hfirst => hi (firstLeftOf_mem hfirst), Int.add_zero]

/-! ## The pots of a showdown -/

section Showdown

variable {s : GameState n} {chipDeltas : Fin n → ℤ}

theorem awardPots_of_sublist {pots pots' : List (ℕ × List (Fin n))} (hsub : pots.Sublist pots')
    {award : Fin n → ℤ} (h : e.awardPots s pots' = some award) :
    ∃ award, e.awardPots s pots = some award := by
  induction hsub generalizing award with
  | slnil => exact ⟨award, h⟩
  | cons pot _ ih =>
    simp only [Engine.awardPots, Option.bind_eq_bind, Option.bind_eq_some_iff] at h
    obtain ⟨_, _, awards, hawards, _⟩ := h
    exact ih hawards
  | cons_cons pot _ ih =>
    simp only [Engine.awardPots, Option.bind_eq_bind, Option.bind_eq_some_iff] at h
    obtain ⟨first, hfirst, awards, hawards, _⟩ := h
    obtain ⟨rest, hrest⟩ := ih hawards
    simp [Engine.awardPots, hfirst, hrest]

/-- The slices of a pot, by level. -/
theorem slicesOf_eq_map (players : Fin n → PlayerState) (eligible : List (Fin n)) :
    slicesOf players eligible =
      (levelsOf players eligible).map fun level => (potAt players level, eligible) := by
  rw [slicesOf, buildShowdownPots_eq_map, List.filter_map, levelsOf]
  refine List.map_congr_left fun level hlevel => ?_
  have heligible : eligibleSeats players level = eligible :=
    of_decide_eq_true (List.mem_filter.mp hlevel).2
  rw [heligible]

theorem map_fst_slicesOf (players : Fin n → PlayerState) (eligible : List (Fin n)) :
    (slicesOf players eligible).map Prod.fst =
      (levelsOf players eligible).map (potAt players) := by
  rw [slicesOf_eq_map, List.map_map]
  rfl

/-- What the seats receive from one pot. -/
theorem awardPots_slicesOf (h : e.awardPots s (buildShowdownPots s.players) = some chipDeltas)
    (eligible : List (Fin n)) :
    e.awardPots s (slicesOf s.players eligible) = some fun i =>
      (((levelsOf s.players eligible).map (potAt s.players)).map fun amount =>
        Engine.splitPot s.dealer amount (strongest e s.board s.players eligible) i).sum := by
  have hsub : (slicesOf s.players eligible).Sublist (buildShowdownPots s.players) :=
    List.filter_sublist
  obtain ⟨award, haward⟩ := awardPots_of_sublist hsub h
  rw [haward]
  congr 1
  funext i
  rw [chipDeltas_eq_splitPots haward, slicesOf_eq_map, List.map_map, List.map_map]
  rfl

theorem potsTotal_slicesOf (players : Fin n → PlayerState) (eligible : List (Fin n)) :
    potsTotal (slicesOf players eligible) =
      ((levelsOf players eligible).map (potAt players)).sum := by
  rw [potsTotal, map_fst_slicesOf]

/-- Nobody's pot is empty. -/
theorem levelsOf_nil (players : Fin n → PlayerState) : levelsOf players [] = [] := by
  refine List.filter_eq_nil_iff.mpr fun level hlevel => ?_
  obtain ⟨hpos, hle, -⟩ := mem_contestedLevels.mp hlevel
  simpa using (eligibleSeats_ne_nil_iff hpos).mpr hle

/-- One pot is divided as a whole exactly if its remainders fit. -/
theorem dividesWhole_pot_iff
    (h : e.awardPots s (buildShowdownPots s.players) = some chipDeltas)
    {eligible : List (Fin n)} (hne : eligible ≠ []) :
    (∃ award, e.awardPots s (slicesOf s.players eligible) = some award ∧
        DividesWhole s.dealer (potsTotal (slicesOf s.players eligible))
          (strongest e s.board s.players eligible) award) ↔
      oddChips e s eligible < winnersOf e s eligible := by
  have hstrong : strongest e s.board s.players eligible ≠ [] := strongest_ne_nil hne
  have hwhole := dividesWhole_iff s.dealer ((levelsOf s.players eligible).map (potAt s.players))
    hstrong
  rw [List.map_map] at hwhole
  rw [awardPots_slicesOf h, potsTotal_slicesOf]
  constructor
  · rintro ⟨award, haward, hdivides⟩
    obtain rfl := Option.some.inj haward
    exact hwhole.mp hdivides
  · exact fun hfits => ⟨_, rfl, hwhole.mpr hfits⟩

/-- Seats that are no pot's have no odd chips. -/
theorem RemaindersFit.oddChips_lt (h : RemaindersFit e s) {eligible : List (Fin n)}
    (hne : eligible ≠ []) : oddChips e s eligible < winnersOf e s eligible := by
  by_cases hlevels : levelsOf s.players eligible = []
  · rw [oddChips, hlevels]
    exact List.length_pos_iff.mpr (strongest_ne_nil hne)
  · obtain ⟨level, hlevel⟩ := List.exists_mem_of_ne_nil _ hlevels
    obtain ⟨hmem, heligible⟩ := List.mem_filter.mp hlevel
    rw [← of_decide_eq_true heligible]
    exact h level hmem

/-- Nobody's pot is divided as a whole. -/
theorem dividesWhole_pot_nil
    (h : e.awardPots s (buildShowdownPots s.players) = some chipDeltas) :
    ∃ award, e.awardPots s (slicesOf s.players []) = some award ∧
      DividesWhole s.dealer (potsTotal (slicesOf s.players []))
        (strongest e s.board s.players []) award := by
  rw [awardPots_slicesOf h, levelsOf_nil]
  exact ⟨_, rfl, fun i => by simp [strongest]⟩

/-! ## Equal hands -/

theorem mem_contesting {players : Fin n → PlayerState} {i : Fin n} :
    i ∈ contesting players ↔ (players i).status ≠ .folded ∧ 0 < (players i).totalCommitted := by
  simp [contesting]

section Even

variable {committed rank : ℕ}
  (heven : ∀ i ∈ contesting s.players, (s.players i).totalCommitted = committed ∧
    handRank e s.board s.players i = rank)
include heven

/-- With equal commitments there is one pot. -/
theorem slicesOf_contesting : slicesOf s.players (contesting s.players) =
    buildShowdownPots s.players := by
  refine List.filter_eq_self.mpr fun pot hpot => ?_
  rw [buildShowdownPots_eq_map] at hpot
  obtain ⟨level, hlevel, rfl⟩ := List.mem_map.mp hpot
  obtain ⟨hpos, hle, -⟩ := mem_contestedLevels.mp hlevel
  obtain ⟨top, htop, hcommitted⟩ := exists_contestedLevel (hpos.trans_le hle)
  refine decide_eq_true (List.filter_congr fun i _ => ?_)
  -- all of them have committed as much as the highest contested level
  have htop' := (heven top (mem_contesting.mpr ⟨htop, by omega⟩)).1
  have hreach : i ∈ contesting s.players → level ≤ (s.players i).totalCommitted := by
    intro hi
    rw [(heven i hi).1, ← htop', hcommitted]
    exact hle
  exact decide_eq_decide.mpr ⟨fun h => ⟨h.2, hpos.trans_le h.1⟩,
    fun h => ⟨hreach (mem_contesting.mpr h), h.1⟩⟩

/-- With equal hands everybody wins. -/
theorem strongest_contesting :
    strongest e s.board s.players (contesting s.players) = contesting s.players := by
  refine List.filter_eq_self.mpr fun i hi => List.all_eq_true.mpr fun j hj => ?_
  rw [(heven i hi).2, (heven j hj).2]
  exact decide_eq_true le_rfl

/-- Then payouts differ by the odd chips at most, if the pot is divided as a whole. -/
theorem sub_le_of_dividesWhole
    (h : e.awardPots s (buildShowdownPots s.players) = some chipDeltas)
    (hpot : ∃ award, e.awardPots s (slicesOf s.players (contesting s.players)) = some award ∧
      DividesWhole s.dealer (potsTotal (slicesOf s.players (contesting s.players)))
        (strongest e s.board s.players (contesting s.players)) award)
    {i j : Fin n} (hi : i ∈ contesting s.players) (hj : j ∈ contesting s.players) :
    chipDeltas i - chipDeltas j ≤
      ((∑ k, (s.players k).totalCommitted) % (contesting s.players).length : ℕ) := by
  rw [slicesOf_contesting heven, strongest_contesting heven, h] at hpot
  obtain ⟨award, haward, hdivides⟩ := hpot
  obtain rfl := Option.some.inj haward
  obtain ⟨hstatus, hpos⟩ := mem_contesting.mp hi
  rw [potsTotal_buildShowdownPots s.players hstatus hpos] at hdivides
  rw [hdivides i, hdivides j, if_pos hi, if_pos hj]
  split_ifs <;> omega

end Even

end Showdown

/-! ## Every showdown -/

/-- A showdown of seats with cards and amounts that fit is resolved. -/
theorem exists_resolved {s : GameState n} (hboard : s.board.length = 5)
    (hcards : ∀ i, (s.players i).holeCards ≠ none)
    (hfits : ∑ i, ((s.players i).stack + (s.players i).totalCommitted) < 2 ^ 32) :
    ∃ s' chipDeltas, e.resolveShowdownChecked s = some (some (s', chipDeltas)) ∧
      e.awardPots s (buildShowdownPots s.players) = some chipDeltas := by
  obtain ⟨chipDeltas, hawards⟩ : ∃ chipDeltas,
      e.awardPots s (buildShowdownPots s.players) = some chipDeltas :=
    awardPots_isSome fun _ _ i _ => hcards i
  have hchecked := resolveShowdownChecked_of_lt (e := e) hfits
  rw [Engine.resolveShowdown, if_pos hboard, hawards] at hchecked
  exact ⟨_, chipDeltas, hchecked, hawards⟩

/-- Both blinds have folded, the big blind to a raise, and three seats are all-in with
equal hands. -/
def foldedBlinds : GameState 5 :=
  riverShowdown ![committedSeat (⟨50⟩, ⟨51⟩) 0 4 .allIn, committedSeat (⟨40⟩, ⟨41⟩) 99 1 .folded,
    committedSeat (⟨30⟩, ⟨31⟩) 98 2 .folded, committedSeat (⟨32⟩, ⟨33⟩) 0 4 .allIn,
    committedSeat (⟨42⟩, ⟨43⟩) 0 4 .allIn]

end VibePoker.Game
