import Mathlib.Tactic.Positivity
import VibePoker.Math.Layers
import VibePoker.Game.Step

/-!
# Pots and awards

The pots of a showdown are layers of the committed chips, and each pot is paid in
full to strongest hands among the seats that may win it. Chips are lost only if
no seat that is not folded has committed any.

## Main definitions

* `strongest` — the seats of a list whose hands are not beaten
* `PaysPot` — an award of one pot to its strongest hands

## Main results

* `potsTotal_buildShowdownPots` — the pots hold everything that was committed
* `paysPot_of_awardPot` — how a pot is paid
* `paysPots_of_awardPots` — the awards of a showdown are made pot by pot
-/

namespace VibePoker.Game

open VibePoker.Core VibePoker.Math

variable {n : ℕ} {e : Engine}

/-! ## Commitment levels -/

section Levels

variable (players : Fin n → PlayerState)

/-- The committed amounts, sorted. -/
def sortedCommitments : List ℕ :=
  (((List.finRange n).map fun i => (players i).totalCommitted).filter (0 < ·)).insertionSort (· ≤ ·)

theorem commitmentLevels_eq_dedup :
    commitmentLevels players = (sortedCommitments players).dedup :=
  (List.pairwise_insertionSort (· ≤ ·) _).destutter_eq_dedup

theorem mem_commitmentLevels {level : ℕ} :
    level ∈ commitmentLevels players ↔ 0 < level ∧ ∃ i, (players i).totalCommitted = level := by
  rw [commitmentLevels_eq_dedup, List.mem_dedup, sortedCommitments, List.mem_insertionSort]
  simp [and_comm]

/-- The levels ascend from zero. -/
theorem pairwise_commitmentLevels : (0 :: commitmentLevels players).Pairwise (· < ·) := by
  refine List.pairwise_cons.mpr ⟨fun level h => ((mem_commitmentLevels players).mp h).1, ?_⟩
  rw [commitmentLevels_eq_dedup]
  have hsorted : (sortedCommitments players).dedup.Pairwise (· ≤ ·) :=
    (List.pairwise_insertionSort (· ≤ ·) _).sublist (List.dedup_sublist _)
  refine (hsorted.and (List.nodup_dedup _)).imp fun h => ?_
  exact lt_of_le_of_ne h.1 h.2

end Levels

/-! ## Building the pots -/

section Building

variable (players : Fin n → PlayerState)

/-- The chips in a list of pots. -/
def potsTotal (pots : List (ℕ × List (Fin n))) : ℕ := (pots.map Prod.fst).sum

theorem mergeIntoLast_ne_nil {amount : ℕ} {pots : List (ℕ × List (Fin n))} (h : pots ≠ []) :
    mergeIntoLast amount pots ≠ [] := by
  match pots, h with
  | [pot], _ => simp [mergeIntoLast]
  | _ :: _ :: _, _ => simp [mergeIntoLast]

/-- Merging a slice into an existing pot loses nothing. -/
theorem potsTotal_mergeIntoLast (amount : ℕ) {pots : List (ℕ × List (Fin n))} (h : pots ≠ []) :
    potsTotal (mergeIntoLast amount pots) = potsTotal pots + amount := by
  induction pots with
  | nil => exact absurd rfl h
  | cons pot pots ih =>
    cases pots with
    | nil => simp [mergeIntoLast, potsTotal]
    | cons next pots =>
      have := ih (List.cons_ne_nil _ _)
      simp only [mergeIntoLast, potsTotal, List.map_cons, List.sum_cons] at this ⊢
      omega

/-- Once there is a pot, every later slice ends up in some pot. -/
theorem potsTotal_buildPotsFrom (prev : ℕ) (levels : List ℕ) {result : List (ℕ × List (Fin n))}
    (hresult : result ≠ []) :
    potsTotal (buildPotsFrom players prev levels result) =
      potsTotal result + (layers (fun i => (players i).totalCommitted) prev levels).sum := by
  induction levels generalizing prev result with
  | nil => simp [buildPotsFrom, layers]
  | cons level levels ih =>
    have hwidth : (Finset.univ.filter fun i => level ≤ (players i).totalCommitted).card =
        contributors players level := rfl
    rw [buildPotsFrom, layers, List.sum_cons, hwidth]
    dsimp only
    split_ifs with hslice hnone
    · rw [ih level hresult, hslice, Nat.zero_add]
    · rw [ih level (mergeIntoLast_ne_nil hresult), potsTotal_mergeIntoLast _ hresult,
        Nat.add_assoc]
    · rw [ih level (by simp), potsTotal, List.map_append, List.sum_append]
      simp [potsTotal, Nat.add_assoc]

/-- Without a seat that may win the first slice, nothing is in the pots. -/
theorem buildPotsFrom_eq_nil (prev : ℕ) (levels : List ℕ)
    (h : ∀ level ∈ levels, eligibleSeats players level = []) :
    buildPotsFrom players prev levels [] = [] := by
  induction levels generalizing prev with
  | nil => rfl
  | cons level levels ih =>
    have hrest := ih level fun l hl => h l (List.mem_cons_of_mem _ hl)
    rw [buildPotsFrom]
    simp only [h level List.mem_cons_self, if_true, mergeIntoLast, hrest, ite_self]

theorem mem_eligibleSeats {level : ℕ} {i : Fin n} :
    i ∈ eligibleSeats players level ↔
      level ≤ (players i).totalCommitted ∧ (players i).status ≠ .folded := by
  simp [eligibleSeats]

/-- The pots hold everything that was committed, if some seat that is not folded
committed anything. -/
theorem potsTotal_buildShowdownPots {i : Fin n} (hi : (players i).status ≠ .folded)
    (hpos : 0 < (players i).totalCommitted) :
    potsTotal (buildShowdownPots players) = ∑ j, (players j).totalCommitted := by
  have hsorted := pairwise_commitmentLevels players
  have hvalues : ∀ j, (players j).totalCommitted ≤ 0 ∨
      (players j).totalCommitted ∈ commitmentLevels players := by
    intro j
    rw [mem_commitmentLevels]
    rcases Nat.eq_zero_or_pos (players j).totalCommitted with h | h
    · exact Or.inl h.le
    · exact Or.inr ⟨h, j, rfl⟩
  have hlayers := sum_layers (fun j => (players j).totalCommitted) 0 (commitmentLevels players)
    hsorted hvalues
  have hmem := (hvalues i).resolve_left (by omega)
  rw [buildShowdownPots]
  cases hlevels : commitmentLevels players with
  | nil => simp [hlevels] at hmem
  | cons level levels =>
    rw [hlevels] at hlayers hsorted hmem
    -- The first level is the lowest, so the seat reaches it.
    have hreach : level ≤ (players i).totalCommitted := by
      rcases List.mem_cons.mp hmem with heq | hmem
      · exact heq.ge
      · exact ((List.pairwise_cons.mp (List.pairwise_cons.mp hsorted).2).1 _ hmem).le
    have hlevel : 0 < level := (List.pairwise_cons.mp hsorted).1 _ List.mem_cons_self
    have heligible : eligibleSeats players level ≠ [] :=
      List.ne_nil_of_mem ((mem_eligibleSeats players).mpr ⟨hreach, hi⟩)
    have hwidth : 0 < contributors players level :=
      Finset.card_pos.mpr ⟨i, by simpa using hreach⟩
    have hslice : (level - 0) * contributors players level ≠ 0 :=
      (Nat.mul_pos (by omega) hwidth).ne'
    rw [buildPotsFrom]
    dsimp only
    rw [if_neg hslice, if_neg heligible, potsTotal_buildPotsFrom _ _ _ (by simp)]
    simp only [Nat.sub_zero] at hlayers
    rw [← hlayers, layers, List.sum_cons]
    rfl

/-- Without such a seat the pots are empty and the chips are gone. -/
theorem buildShowdownPots_eq_nil
    (h : ∀ i, (players i).status ≠ .folded → (players i).totalCommitted = 0) :
    buildShowdownPots players = [] := by
  refine buildPotsFrom_eq_nil players 0 _ fun level hlevel => ?_
  refine List.eq_nil_iff_forall_not_mem.mpr fun i hi => ?_
  obtain ⟨hle, hstatus⟩ := (mem_eligibleSeats players).mp hi
  have := ((mem_commitmentLevels players).mp hlevel).1
  have := h i hstatus
  omega

/-- What the pots of a showdown look like: each has seats that may win it, those
not folded that reached one commitment level. -/
def IsPot (pot : ℕ × List (Fin n)) : Prop :=
  pot.1 ≠ 0 ∧ pot.2 ≠ [] ∧ ∃ level, 0 < level ∧ pot.2 = eligibleSeats players level

theorem isPot_mergeIntoLast {amount : ℕ} {pots : List (ℕ × List (Fin n))}
    (h : ∀ pot ∈ pots, IsPot players pot) :
    ∀ pot ∈ mergeIntoLast amount pots, IsPot players pot := by
  induction pots with
  | nil => simp [mergeIntoLast]
  | cons pot pots ih =>
    cases pots with
    | nil =>
      intro merged hmerged
      obtain rfl : merged = (pot.1 + amount, pot.2) := by simpa [mergeIntoLast] using hmerged
      obtain ⟨hne, hrest⟩ := h pot List.mem_cons_self
      exact ⟨by simp only; omega, hrest⟩
    | cons next pots =>
      intro merged hmerged
      rw [mergeIntoLast] at hmerged
      rcases List.mem_cons.mp hmerged with rfl | hmerged
      · exact h _ List.mem_cons_self
      · exact ih (fun pot hpot => h pot (List.mem_cons_of_mem _ hpot)) merged hmerged
      · simp

theorem isPot_buildPotsFrom (prev : ℕ) (levels : List ℕ) (hlevels : ∀ level ∈ levels, 0 < level)
    {result : List (ℕ × List (Fin n))} (h : ∀ pot ∈ result, IsPot players pot) :
    ∀ pot ∈ buildPotsFrom players prev levels result, IsPot players pot := by
  induction levels generalizing prev result with
  | nil => exact h
  | cons level levels ih =>
    have hrest : ∀ level ∈ levels, 0 < level := fun l hl => hlevels l (List.mem_cons_of_mem _ hl)
    rw [buildPotsFrom]
    dsimp only
    split_ifs with hslice hnone
    · exact ih level hrest h
    · exact ih level hrest (isPot_mergeIntoLast players h)
    · refine ih level hrest fun pot hpot => ?_
      rcases List.mem_append.mp hpot with hpot | hpot
      · exact h pot hpot
      · obtain rfl := List.mem_singleton.mp hpot
        exact ⟨hslice, hnone, level, hlevels level List.mem_cons_self, rfl⟩

theorem isPot_of_mem {pot : ℕ × List (Fin n)} (h : pot ∈ buildShowdownPots players) :
    IsPot players pot :=
  isPot_buildPotsFrom players 0 _ (fun _ hl => ((mem_commitmentLevels players).mp hl).1)
    (by simp) pot h

end Building

/-! ## Ranks -/

/-- The rank of a seat's hand on the board; a seat without cards has none. -/
def handRank (e : Engine) (board : List Card) (players : Fin n → PlayerState) (i : Fin n) : ℕ :=
  ((players i).holeCards.map fun hole =>
    e.evaluator.rank7 (hole.1 :: hole.2 :: board)).getD 0

/-- The seats of a list that hold a hand no other seat of the list beats. -/
def strongest (e : Engine) (board : List Card) (players : Fin n → PlayerState)
    (eligible : List (Fin n)) : List (Fin n) :=
  eligible.filter fun i =>
    eligible.all fun j => handRank e board players j ≤ handRank e board players i

theorem showdownRanks_eq_some {s : GameState n} {eligible : List (Fin n)}
    {ranks : List (Fin n × ℕ)} (h : e.showdownRanks s eligible = some ranks) :
    ranks = eligible.map fun i => (i, handRank e s.board s.players i) := by
  induction eligible generalizing ranks with
  | nil => simpa [Engine.showdownRanks, eq_comm] using h
  | cons i eligible ih =>
    simp only [Engine.showdownRanks, List.mapM_cons, Option.pure_def, Option.bind_eq_bind,
      Option.bind_eq_some_iff, Option.map_eq_some_iff, Option.some.injEq] at h
    obtain ⟨head, ⟨hole, hhole, rfl⟩, rest, hrest, rfl⟩ := h
    rw [ih hrest]
    simp [handRank, hhole]

theorem showdownRanks_isSome {s : GameState n} {eligible : List (Fin n)}
    (h : ∀ i ∈ eligible, (s.players i).holeCards ≠ none) :
    ∃ ranks, e.showdownRanks s eligible = some ranks := by
  induction eligible with
  | nil => exact ⟨[], rfl⟩
  | cons i eligible ih =>
    obtain ⟨ranks, hranks⟩ := ih fun j hj => h j (List.mem_cons_of_mem _ hj)
    obtain ⟨hole, hhole⟩ := Option.ne_none_iff_exists'.mp (h i List.mem_cons_self)
    rw [Engine.showdownRanks] at hranks
    simp [Engine.showdownRanks, hhole, hranks]

theorem le_foldl_max (values : List ℕ) (init : ℕ) :
    init ≤ values.foldl max init ∧ ∀ value ∈ values, value ≤ values.foldl max init := by
  induction values generalizing init with
  | nil => simp
  | cons value values ih =>
    obtain ⟨hinit, hvalues⟩ := ih (max init value)
    refine ⟨(le_max_left _ _).trans hinit, fun v hv => ?_⟩
    rcases List.mem_cons.mp hv with rfl | hv
    · exact (le_max_right _ _).trans hinit
    · exact hvalues v hv

theorem foldl_max_mem (values : List ℕ) (init : ℕ) :
    values.foldl max init = init ∨ values.foldl max init ∈ values := by
  induction values generalizing init with
  | nil => simp
  | cons value values ih =>
    rcases ih (max init value) with heq | hmem
    · rcases max_choice init value with h | h
      · exact Or.inl (by rw [List.foldl_cons, heq, h])
      · exact Or.inr (by rw [List.foldl_cons, heq, h]; exact List.mem_cons_self)
    · exact Or.inr (List.mem_cons_of_mem _ hmem)

/-- The best seats of a showdown are the strongest. -/
theorem bestSeats_eq_strongest (board : List Card) (players : Fin n → PlayerState)
    (eligible : List (Fin n)) :
    Engine.bestSeats (eligible.map fun i => (i, handRank e board players i)) =
      strongest e board players eligible := by
  simp only [Engine.bestSeats, List.filter_map, List.map_map, Function.comp_def, List.map_id']
  rw [strongest]
  refine List.filter_congr fun i hi => ?_
  obtain ⟨-, hle⟩ := le_foldl_max (eligible.map fun i => handRank e board players i) 0
  have hle' : ∀ j ∈ eligible, handRank e board players j ≤
      (eligible.map fun i => handRank e board players i).foldl max 0 :=
    fun j hj => hle _ (List.mem_map_of_mem hj)
  rw [Bool.eq_iff_iff, List.all_eq_true]
  simp only [decide_eq_true_eq]
  constructor
  · exact fun heq j hj => (hle' j hj).trans heq.ge
  · intro hbest
    refine le_antisymm (hle' i hi) ?_
    rcases foldl_max_mem (eligible.map fun i => handRank e board players i) 0 with hzero | hmem
    · rw [hzero]
      exact Nat.zero_le _
    · obtain ⟨j, hj, hrank⟩ := List.mem_map.mp hmem
      rw [← hrank]
      exact hbest j hj

theorem strongest_ne_nil {board : List Card} {players : Fin n → PlayerState}
    {eligible : List (Fin n)} (h : eligible ≠ []) :
    strongest e board players eligible ≠ [] := by
  obtain ⟨i, hi, hmax⟩ : ∃ i ∈ eligible,
      ∀ j ∈ eligible, handRank e board players j ≤ handRank e board players i := by
    have hfin : eligible.toFinset.Nonempty := by
      simpa [Finset.nonempty_iff_ne_empty, List.toFinset_eq_empty_iff] using h
    obtain ⟨i, hi, hmax⟩ := eligible.toFinset.exists_max_image (handRank e board players) hfin
    exact ⟨i, List.mem_toFinset.mp hi, fun j hj => hmax j (List.mem_toFinset.mpr hj)⟩
  exact List.ne_nil_of_mem (List.mem_filter.mpr ⟨hi, by simpa using hmax⟩)

/-! ## Paying one pot -/

/-- An award that pays a pot in full, evenly, and only to its strongest hands. -/
structure PaysPot (e : Engine) (board : List Card) (players : Fin n → PlayerState)
    (pot : ℕ × List (Fin n)) (award : Fin n → ℤ) : Prop where
  total_eq : ∑ i, award i = pot.1
  nonneg : ∀ i, 0 ≤ award i
  eq_zero : ∀ i, i ∉ strongest e board players pot.2 → award i = 0
  share_le : ∀ i ∈ strongest e board players pot.2,
    (pot.1 / (strongest e board players pot.2).length : ℕ) ≤ award i

/-- Splitting an amount pays it in full, evenly, and only to the winners. -/
theorem splitPot_spec (dealer amount : ℕ) {winners : List (Fin n)} (hne : winners ≠ [])
    (hnodup : winners.Nodup) :
    ∑ i, Engine.splitPot dealer amount winners i = amount ∧
      (∀ i, 0 ≤ Engine.splitPot dealer amount winners i) ∧
      (∀ i, i ∉ winners → Engine.splitPot dealer amount winners i = 0) ∧
      ∀ i ∈ winners, (amount / winners.length : ℕ) ≤ Engine.splitPot dealer amount winners i := by
  obtain ⟨winner, hwinner⟩ := List.exists_mem_of_ne_nil winners hne
  obtain ⟨first, hfirst, hmem⟩ := find?_ringAfter_isSome (p := fun i => decide (i ∈ winners))
    dealer (by simpa using hwinner)
  have hmem' : first ∈ winners := by simpa using hmem
  -- each winner gets an equal share, and the first of them clockwise the odd chips
  have hsplit : ∀ i, Engine.splitPot dealer amount winners i =
      (if i ∈ winners then ((amount / winners.length : ℕ) : ℤ) else 0) +
        if i = first then ((amount % winners.length : ℕ) : ℤ) else 0 := by
    intro i
    simp only [Engine.splitPot, hfirst, Option.some.injEq, gt_iff_lt]
    congr 1
    by_cases hi : i = first
    · subst hi
      by_cases hpos : 0 < amount % winners.length
      · simp [hpos]
      · simp [Nat.eq_zero_of_not_pos hpos]
    · have hi' : ¬ first = i := fun h => hi h.symm
      simp [hi, hi']
  refine ⟨?_, fun i => ?_, fun i hi => ?_, fun i hi => ?_⟩
  · have hcard : (Finset.univ.filter fun i => i ∈ winners).card = winners.length := by
      rw [← List.toFinset_card_of_nodup hnodup]
      congr 1
      ext i
      simp
    simp only [hsplit, Finset.sum_add_distrib, Finset.sum_ite, Finset.sum_const, hcard,
      nsmul_eq_mul]
    have hone : (Finset.univ.filter fun i => i = first).card = 1 := by
      simp [Finset.filter_eq']
    rw [hone, Nat.cast_one, one_mul]
    exact_mod_cast Nat.div_add_mod amount winners.length
  · rw [hsplit]
    split <;> split <;> positivity
  · have hne' : i ≠ first := fun h => hi (h ▸ hmem')
    simp [hsplit, hi, hne']
  · rw [hsplit, if_pos hi]
    refine le_add_of_nonneg_right ?_
    split <;> positivity

/-- A pot is paid in full, evenly, and only to its strongest hands. -/
theorem paysPot_of_awardPot {s : GameState n} {pot : ℕ × List (Fin n)} {award : Fin n → ℤ}
    (hne : pot.2 ≠ []) (hnodup : pot.2.Nodup) (h : e.awardPot s pot = some award) :
    PaysPot e s.board s.players pot award := by
  obtain ⟨amount, eligible⟩ := pot
  simp only [Engine.awardPot] at h
  split at h
  case isTrue hnone =>
    obtain rfl := Option.some.inj h
    obtain rfl : amount = 0 := hnone.resolve_left hne
    exact ⟨by simp, fun _ => le_rfl, fun _ _ => rfl, fun i hi => by simp⟩
  case isFalse =>
    split at h
    case h_1 seat _ =>
      obtain rfl := Option.some.inj h
      have hstrongest : strongest e s.board s.players [seat] = [seat] := by simp [strongest]
      refine ⟨by simp, fun i => ?_, fun i hi => ?_, fun i hi => ?_⟩
      · split <;> positivity
      · simp only [hstrongest, List.mem_singleton] at hi
        simp [hi]
      · simp only [hstrongest, List.mem_singleton] at hi
        simp [hstrongest, hi]
    case h_2 =>
      simp only [Option.bind_eq_bind, Option.bind_eq_some_iff, Option.some.injEq] at h
      obtain ⟨ranks, hranks, rfl⟩ := h
      rw [showdownRanks_eq_some hranks, bestSeats_eq_strongest]
      obtain ⟨htotal, hnonneg, hzero, hshare⟩ := splitPot_spec s.dealer amount
        (strongest_ne_nil hne) (hnodup.filter _)
      exact ⟨htotal, hnonneg, hzero, hshare⟩

/-! ## Paying all the pots -/

theorem awardPot_isSome {s : GameState n} {pot : ℕ × List (Fin n)}
    (h : ∀ i ∈ pot.2, (s.players i).holeCards ≠ none) :
    ∃ award, e.awardPot s pot = some award := by
  obtain ⟨amount, eligible⟩ := pot
  simp only [Engine.awardPot]
  split
  case isTrue => exact ⟨_, rfl⟩
  case isFalse =>
    split
    case h_1 => exact ⟨_, rfl⟩
    case h_2 =>
      obtain ⟨ranks, hranks⟩ := showdownRanks_isSome (e := e) h
      simp [hranks]

theorem awardPots_isSome {s : GameState n} {pots : List (ℕ × List (Fin n))}
    (h : ∀ pot ∈ pots, ∀ i ∈ pot.2, (s.players i).holeCards ≠ none) :
    ∃ awards, e.awardPots s pots = some awards := by
  induction pots with
  | nil => exact ⟨_, rfl⟩
  | cons pot pots ih =>
    obtain ⟨award, haward⟩ := awardPot_isSome (e := e) (h pot List.mem_cons_self)
    obtain ⟨awards, hawards⟩ := ih fun pot hpot => h pot (List.mem_cons_of_mem _ hpot)
    simp [Engine.awardPots, haward, hawards]

/-- The awards of a showdown are the sums of what the pots pay. -/
theorem awardPots_eq_some {s : GameState n} {pots : List (ℕ × List (Fin n))}
    {chipDeltas : Fin n → ℤ} (h : e.awardPots s pots = some chipDeltas) :
    ∃ awards, List.Forall₂ (fun pot award => e.awardPot s pot = some award) pots awards ∧
      ∀ i, chipDeltas i = (awards.map fun award => award i).sum := by
  induction pots generalizing chipDeltas with
  | nil =>
    obtain rfl := Option.some.inj h
    exact ⟨[], .nil, fun _ => rfl⟩
  | cons pot pots ih =>
    simp only [Engine.awardPots, Option.bind_eq_bind, Option.bind_eq_some_iff,
      Option.some.injEq] at h
    obtain ⟨award, haward, rest, hrest, rfl⟩ := h
    obtain ⟨awards, hall, hsum⟩ := ih hrest
    exact ⟨award :: awards, .cons haward hall, fun i => by simp [hsum i]⟩

/-- How the awards of a showdown come about: each pot is paid to its strongest
hands. -/
theorem paysPots_of_awardPots {s : GameState n} {chipDeltas : Fin n → ℤ}
    (h : e.awardPots s (buildShowdownPots s.players) = some chipDeltas) :
    ∃ awards, List.Forall₂ (PaysPot e s.board s.players) (buildShowdownPots s.players) awards ∧
      ∀ i, chipDeltas i = (awards.map fun award => award i).sum := by
  obtain ⟨awards, hall, hsum⟩ := awardPots_eq_some h
  refine ⟨awards, ?_, hsum⟩
  have hpots : ∀ pot ∈ buildShowdownPots s.players, pot.2 ≠ [] ∧ pot.2.Nodup := by
    intro pot hpot
    obtain ⟨-, hne, level, -, heligible⟩ := isPot_of_mem s.players hpot
    exact ⟨hne, heligible ▸ (List.nodup_finRange _).filter _⟩
  refine ((List.forall₂_and_left _ _).mpr ⟨hpots, hall⟩).imp ?_
  rintro pot award ⟨⟨hne, hnodup⟩, haward⟩
  exact paysPot_of_awardPot hne hnodup haward

/-! ## What a showdown pays -/

theorem mem_strongest {s : GameState n} {eligible : List (Fin n)} {i : Fin n}
    (h : i ∈ strongest e s.board s.players eligible) : i ∈ eligible := (List.mem_filter.mp h).1

theorem sum_map_nonneg {awards : List (Fin n → ℤ)} (h : ∀ award ∈ awards, ∀ i, 0 ≤ award i)
    (i : Fin n) : 0 ≤ (awards.map fun award => award i).sum := by
  refine List.sum_nonneg fun value hvalue => ?_
  obtain ⟨award, haward, rfl⟩ := List.mem_map.mp hvalue
  exact h award haward i

theorem paysPots_nonneg {s : GameState n} {pots : List (ℕ × List (Fin n))}
    {awards : List (Fin n → ℤ)} (h : List.Forall₂ (PaysPot e s.board s.players) pots awards) :
    ∀ award ∈ awards, ∀ i, 0 ≤ award i := by
  induction h with
  | nil => simp
  | cons hpays _ ih =>
    intro award haward
    rcases List.mem_cons.mp haward with rfl | haward
    · exact hpays.nonneg
    · exact ih award haward

theorem paysPots_sum {s : GameState n} {pots : List (ℕ × List (Fin n))}
    {awards : List (Fin n → ℤ)} (h : List.Forall₂ (PaysPot e s.board s.players) pots awards) :
    ∑ i, (awards.map fun award => award i).sum = potsTotal pots := by
  induction h with
  | nil => simp [potsTotal]
  | cons hpays _ ih =>
    simp only [List.map_cons, List.sum_cons, Finset.sum_add_distrib, hpays.total_eq, ih]
    simp [potsTotal]

theorem paysPots_eq_zero {s : GameState n} {pots : List (ℕ × List (Fin n))}
    {awards : List (Fin n → ℤ)} (h : List.Forall₂ (PaysPot e s.board s.players) pots awards)
    {i : Fin n}
    (hi : ∀ pot ∈ pots, i ∉ pot.2) : (awards.map fun award => award i).sum = 0 := by
  induction h with
  | nil => rfl
  | cons hpays _ ih =>
    have hzero := hpays.eq_zero i fun hmem => hi _ List.mem_cons_self (mem_strongest hmem)
    simp [hzero, ih fun pot hpot => hi pot (List.mem_cons_of_mem _ hpot)]

/-- A showdown pays the pots, no seat less than nothing, and nothing to a seat
that folded or committed nothing. -/
theorem awards_spec {s : GameState n} {chipDeltas : Fin n → ℤ}
    (h : e.awardPots s (buildShowdownPots s.players) = some chipDeltas) :
    ∑ i, chipDeltas i = potsTotal (buildShowdownPots s.players) ∧ (∀ i, 0 ≤ chipDeltas i) ∧
      ∀ i, (s.players i).status = .folded ∨ (s.players i).totalCommitted = 0 →
        chipDeltas i = 0 := by
  obtain ⟨awards, hall, hsum⟩ := paysPots_of_awardPots h
  refine ⟨?_, fun i => ?_, fun i hi => ?_⟩
  · simp only [hsum]
    exact paysPots_sum hall
  · rw [hsum]
    exact sum_map_nonneg (paysPots_nonneg hall) i
  · rw [hsum]
    refine paysPots_eq_zero hall fun pot hpot hmem => ?_
    obtain ⟨-, -, level, hlevel, heligible⟩ := isPot_of_mem s.players hpot
    rw [heligible, mem_eligibleSeats] at hmem
    rcases hi with hi | hi
    · exact hmem.2 hi
    · omega

/-! ## Stacks play no role -/

/-- The same seats with other stacks. -/
def withStacks (players : Fin n → PlayerState) (stack : Fin n → ℕ) : Fin n → PlayerState :=
  fun i => { players i with stack := stack i }

theorem buildShowdownPots_withStacks (players : Fin n → PlayerState) (stack : Fin n → ℕ) :
    buildShowdownPots (withStacks players stack) = buildShowdownPots players := by
  have hfrom : ∀ prev levels result, buildPotsFrom (withStacks players stack) prev levels result =
      buildPotsFrom players prev levels result := by
    intro prev levels result
    induction levels generalizing prev result with
    | nil => rfl
    | cons level levels ih =>
      have hwidth : contributors (withStacks players stack) level = contributors players level :=
        rfl
      have heligible : eligibleSeats (withStacks players stack) level =
          eligibleSeats players level := rfl
      simp only [buildPotsFrom, hwidth, heligible, ih]
  exact hfrom 0 _ []

theorem paysPot_withStacks {board : List Card} {players : Fin n → PlayerState}
    {stack : Fin n → ℕ} {pot : ℕ × List (Fin n)} {award : Fin n → ℤ}
    (h : PaysPot e board players pot award) :
    PaysPot e board (withStacks players stack) pot award :=
  ⟨h.total_eq, h.nonneg, h.eq_zero, h.share_le⟩

end VibePoker.Game
