import Mathlib.Order.Lattice.Nat
import VibePoker.Game.Slices

/-!
# Pots by commitment level

The pots of a showdown, without the loop that makes them: there is one pot for each
commitment level that a seat which has not folded reaches, and the highest of them also
holds whatever folded seats have committed beyond it. A pot pays its strongest hands what
splitting its amount gives them.

## Main definitions

* `contestedLevel` — the highest commitment of a seat that has not folded
* `potAt` — the chips in the pot of a level

## Main results

* `buildShowdownPots_eq_map` — the pots of any showdown, by level
* `chipDeltas_eq_splitPots` — what any showdown pays, pot by pot
-/

namespace VibePoker.Game

open VibePoker.Core VibePoker.Math

variable {n : ℕ} {e : Engine}

/-! ## Levels -/

section Levels

variable (players : Fin n → PlayerState)

/-- The highest commitment of a seat that has not folded. -/
def contestedLevel : ℕ :=
  (Finset.univ.filter fun i => (players i).status ≠ .folded).sup fun i =>
    (players i).totalCommitted

/-- The highest commitment below a level. -/
def levelBelow (level : ℕ) : ℕ :=
  (Finset.univ.filter fun i => (players i).totalCommitted < level).sup fun i =>
    (players i).totalCommitted

/-- The chips between a level and the one below. -/
def sliceAt (level : ℕ) : ℕ := (level - levelBelow players level) * contributors players level

/-- The chips in the pot of a contested level: its slice, and for the highest contested
level everything above it as well. -/
def potAt (level : ℕ) : ℕ :=
  sliceAt players level +
    if level = contestedLevel players then ∑ i, ((players i).totalCommitted - level) else 0

/-- The commitment levels for which there is a pot. -/
def contestedLevels : List ℕ :=
  (commitmentLevels players).filter (· ≤ contestedLevel players)

variable {players}

theorem le_contestedLevel {i : Fin n} (h : (players i).status ≠ .folded) :
    (players i).totalCommitted ≤ contestedLevel players :=
  Finset.le_sup (f := fun i => (players i).totalCommitted) (by simpa using h)

/-- The highest contested level is the commitment of a seat. -/
theorem exists_contestedLevel (h : 0 < contestedLevel players) :
    ∃ i, (players i).status ≠ .folded ∧ (players i).totalCommitted = contestedLevel players := by
  have hne : (Finset.univ.filter fun i => (players i).status ≠ .folded).Nonempty := by
    rw [Finset.nonempty_iff_ne_empty]
    intro hempty
    rw [contestedLevel, hempty] at h
    exact absurd h (Nat.lt_irrefl 0)
  obtain ⟨i, hi, hsup⟩ := Finset.exists_mem_eq_sup _ hne fun i => (players i).totalCommitted
  exact ⟨i, by simpa using hi, hsup.symm⟩

/-- A level has eligible seats exactly if it is contested. -/
theorem eligibleSeats_ne_nil_iff {level : ℕ} (hlevel : 0 < level) :
    eligibleSeats players level ≠ [] ↔ level ≤ contestedLevel players := by
  constructor
  · intro h
    obtain ⟨i, hi⟩ := List.exists_mem_of_ne_nil _ h
    obtain ⟨hreach, hstatus⟩ := (mem_eligibleSeats players).mp hi
    exact hreach.trans (le_contestedLevel hstatus)
  · intro h
    obtain ⟨i, hi, hcommitted⟩ := exists_contestedLevel (hlevel.trans_le h)
    exact List.ne_nil_of_mem ((mem_eligibleSeats players).mpr ⟨hcommitted.ge.trans' h, hi⟩)

theorem mem_contestedLevels {level : ℕ} :
    level ∈ contestedLevels players ↔
      0 < level ∧ level ≤ contestedLevel players ∧ ∃ i, (players i).totalCommitted = level := by
  rw [contestedLevels, List.mem_filter, mem_commitmentLevels, decide_eq_true_eq]
  tauto

theorem contestedLevel_mem (h : 0 < contestedLevel players) :
    contestedLevel players ∈ commitmentLevels players := by
  obtain ⟨i, -, hi⟩ := exists_contestedLevel h
  exact (mem_commitmentLevels players).mpr ⟨h, i, hi⟩

/-! ## Slices by level -/

/-- The levels are consecutive: no commitment lies between two of them, nor between the
bottom and the first, and the bottom is a commitment or zero. -/
def Consecutive (players : Fin n → PlayerState) (prev : ℕ) (levels : List ℕ) : Prop :=
  (prev = 0 ∨ ∃ i, (players i).totalCommitted = prev) ∧
    ∀ i, (players i).totalCommitted ≤ prev ∨ (players i).totalCommitted ∈ levels ∨
      ∀ level ∈ levels, level < (players i).totalCommitted

theorem Consecutive.tail {prev level : ℕ} {levels : List ℕ}
    (h : Consecutive players prev (level :: levels))
    (hlevel : ∃ i, (players i).totalCommitted = level) (hlt : prev < level) :
    Consecutive players level levels := by
  refine ⟨Or.inr hlevel, fun i => ?_⟩
  rcases h.2 i with hle | hmem | habove
  · exact Or.inl (hle.trans hlt.le)
  · exact (List.mem_cons.mp hmem).imp (fun heq => heq.le) Or.inl
  · exact Or.inr (Or.inr fun l hl => habove l (List.mem_cons_of_mem _ hl))

/-- The level below the first of a list is the bottom. -/
theorem Consecutive.levelBelow_eq {prev level : ℕ} {levels : List ℕ}
    (h : Consecutive players prev (level :: levels))
    (hsorted : (prev :: level :: levels).Pairwise (· < ·)) : levelBelow players level = prev := by
  obtain ⟨hprev, hrest⟩ := List.pairwise_cons.mp hsorted
  have hlt : prev < level := hprev level List.mem_cons_self
  apply le_antisymm
  · refine Finset.sup_le fun i hi => ?_
    obtain hbelow : (players i).totalCommitted < level := by simpa using hi
    rcases h.2 i with hle | hmem | habove
    · exact hle
    · rcases List.mem_cons.mp hmem with heq | hmem
      · exact absurd heq hbelow.ne
      · exact absurd ((List.pairwise_cons.mp hrest).1 _ hmem) hbelow.not_gt
    · exact absurd (habove level List.mem_cons_self) hbelow.not_gt
  · rcases h.1 with rfl | ⟨i, hi⟩
    · exact Nat.zero_le _
    · rw [← hi]
      exact Finset.le_sup (f := fun i => (players i).totalCommitted) (by simpa [hi] using hlt)

/-- The slices of consecutive levels. -/
theorem slices_eq_map {prev : ℕ} {levels : List ℕ} (h : Consecutive players prev levels)
    (hsorted : (prev :: levels).Pairwise (· < ·))
    (hlevels : ∀ level ∈ levels, ∃ i, (players i).totalCommitted = level) :
    slices players prev levels =
      levels.map fun level => (sliceAt players level, eligibleSeats players level) := by
  induction levels generalizing prev with
  | nil => rfl
  | cons level levels ih =>
    have hlt : prev < level := (List.pairwise_cons.mp hsorted).1 level List.mem_cons_self
    have htail := h.tail (hlevels level List.mem_cons_self) hlt
    rw [slices, List.map_cons, sliceAt, h.levelBelow_eq hsorted,
      ih htail hsorted.of_cons fun l hl => hlevels l (List.mem_cons_of_mem _ hl)]

end Levels

/-! ## Slices that nobody can win -/

section Merging

variable {players : Fin n → PlayerState}

theorem mergeIntoLast_append (amount : ℕ) (pots : List (ℕ × List (Fin n)))
    (pot : ℕ × List (Fin n)) :
    mergeIntoLast amount (pots ++ [pot]) = pots ++ [(pot.1 + amount, pot.2)] := by
  induction pots with
  | nil => rfl
  | cons first pots ih =>
    cases pots with
    | nil => rfl
    | cons second pots =>
      rw [List.cons_append, List.cons_append, mergeIntoLast, ← List.cons_append, ih]
      · rfl
      · simp

/-- Slices without eligible seats all end up in the last pot. -/
theorem buildPotsFrom_of_eligibleSeats_eq_nil {prev : ℕ} {levels : List ℕ}
    (h : ∀ level ∈ levels, eligibleSeats players level = []) (pots : List (ℕ × List (Fin n)))
    (amount : ℕ) (eligible : List (Fin n)) :
    buildPotsFrom players prev levels (pots ++ [(amount, eligible)]) =
      pots ++ [(amount + (layers (fun i => (players i).totalCommitted) prev levels).sum,
        eligible)] := by
  induction levels generalizing prev amount with
  | nil => rfl
  | cons level levels ih =>
    have hrest := fun l hl => h l (List.mem_cons_of_mem level hl)
    have hwidth : (Finset.univ.filter fun i => level ≤ (players i).totalCommitted).card =
        contributors players level := rfl
    rw [buildPotsFrom, layers, List.sum_cons, hwidth]
    dsimp only
    rw [if_pos (h level List.mem_cons_self)]
    split_ifs with hslice
    · rw [ih hrest, hslice, Nat.zero_add]
    · rw [mergeIntoLast_append, ih hrest, Nat.add_assoc]

theorem buildPotsFrom_append (prev : ℕ) (levels : List ℕ) (top : ℕ) (later : List ℕ)
    (result : List (ℕ × List (Fin n))) :
    buildPotsFrom players prev (levels ++ top :: later) result =
      buildPotsFrom players top later
        (buildPotsFrom players prev (levels ++ [top]) result) := by
  induction levels generalizing prev result with
  | nil =>
    simp only [List.nil_append, buildPotsFrom]
    split_ifs <;> rfl
  | cons level levels ih =>
    simp only [List.cons_append, buildPotsFrom, ih]
    split_ifs <;> rfl

end Merging

/-! ## All pots -/

section Pots

variable {players : Fin n → PlayerState}

/-- The levels, cut at the highest contested one. -/
theorem exists_commitmentLevels_eq (h : 0 < contestedLevel players) :
    ∃ lower higher, commitmentLevels players = lower ++ contestedLevel players :: higher ∧
      contestedLevels players = lower ++ [contestedLevel players] ∧
      (∀ level ∈ lower, level < contestedLevel players) ∧
      ∀ level ∈ higher, contestedLevel players < level := by
  obtain ⟨lower, higher, hlevels⟩ := List.append_of_mem (contestedLevel_mem h)
  have hsorted := (pairwise_commitmentLevels players).of_cons
  rw [hlevels, List.pairwise_append] at hsorted
  obtain ⟨-, htop, hbelow⟩ := hsorted
  have hlower : ∀ level ∈ lower, level < contestedLevel players :=
    fun level hlevel => hbelow level hlevel _ List.mem_cons_self
  have hhigher : ∀ level ∈ higher, contestedLevel players < level :=
    (List.pairwise_cons.mp htop).1
  refine ⟨lower, higher, hlevels, ?_, hlower, hhigher⟩
  have hkeep : lower.filter (· ≤ contestedLevel players) = lower :=
    List.filter_eq_self.mpr fun level hlevel => by simpa using (hlower level hlevel).le
  have hdrop : higher.filter (· ≤ contestedLevel players) = [] :=
    List.filter_eq_nil_iff.mpr fun level hlevel => by simpa using hhigher level hlevel
  rw [contestedLevels, hlevels, List.filter_append, hkeep, List.filter_cons, if_pos (by simp),
    hdrop]

section Cut

variable {lower higher : List ℕ}
  (hlevels : commitmentLevels players = lower ++ contestedLevel players :: higher)
  (hlower : ∀ level ∈ lower, level < contestedLevel players)
  (hhigher : ∀ level ∈ higher, contestedLevel players < level)
include hlevels

theorem commitment_cases (i : Fin n) :
    (players i).totalCommitted = 0 ∨
      (players i).totalCommitted ∈ lower ++ [contestedLevel players] ∨
        (players i).totalCommitted ∈ higher := by
  rcases Nat.eq_zero_or_pos (players i).totalCommitted with hzero | hpos
  · exact Or.inl hzero
  · have hmem := (mem_commitmentLevels players).mpr ⟨hpos, i, rfl⟩
    rw [hlevels, List.append_cons, List.mem_append] at hmem
    exact Or.inr hmem

include hlower

/-- The layers above the highest contested level hold what is committed beyond it. -/
theorem sum_layers_higher :
    (layers (fun i => (players i).totalCommitted) (contestedLevel players) higher).sum =
      ∑ i, ((players i).totalCommitted - contestedLevel players) := by
  have hsorted := (pairwise_commitmentLevels players).of_cons
  rw [hlevels] at hsorted
  refine sum_layers _ _ _ (List.pairwise_append.mp hsorted).2.1 fun i => ?_
  rcases commitment_cases hlevels i with hzero | hmem | hmem
  · exact Or.inl (hzero.trans_le (Nat.zero_le _))
  · rw [List.mem_append, List.mem_singleton] at hmem
    exact Or.inl (hmem.elim (fun hmem => (hlower _ hmem).le) fun heq => heq.le)
  · exact Or.inr hmem

include hhigher

/-- Up to the highest contested level, the slices are those of the levels. -/
theorem slices_contested :
    slices players 0 (lower ++ [contestedLevel players]) =
      (lower ++ [contestedLevel players]).map fun level =>
        (sliceAt players level, eligibleSeats players level) := by
  have hsorted := pairwise_commitmentLevels players
  have hvalues : ∀ level ∈ commitmentLevels players, ∃ i, (players i).totalCommitted = level :=
    fun level hlevel => ((mem_commitmentLevels players).mp hlevel).2
  rw [hlevels, List.append_cons, ← List.cons_append] at hsorted
  rw [hlevels, List.append_cons] at hvalues
  refine slices_eq_map ⟨Or.inl rfl, fun i => ?_⟩ (List.pairwise_append.mp hsorted).1
    fun level hlevel => hvalues level (List.mem_append_left _ hlevel)
  rcases commitment_cases hlevels i with hzero | hmem | hmem
  · exact Or.inl hzero.le
  · exact Or.inr (Or.inl hmem)
  · refine Or.inr (Or.inr fun level hlevel => ?_)
    rw [List.mem_append, List.mem_singleton] at hlevel
    rcases hlevel with hlevel | rfl
    · exact (hlower level hlevel).trans (hhigher _ hmem)
    · exact hhigher _ hmem

end Cut

/-- The pots of a showdown, by level. -/
theorem buildShowdownPots_eq_map (players : Fin n → PlayerState) :
    buildShowdownPots players = (contestedLevels players).map fun level =>
      (potAt players level, eligibleSeats players level) := by
  rcases Nat.eq_zero_or_pos (contestedLevel players) with hzero | h
  · -- nobody can win anything
    have hnone : contestedLevels players = [] := by
      refine List.eq_nil_iff_forall_not_mem.mpr fun level hlevel => ?_
      obtain ⟨hpos, hle, -⟩ := mem_contestedLevels.mp hlevel
      omega
    rw [hnone, List.map_nil]
    refine buildShowdownPots_eq_nil players fun i hi => ?_
    have := le_contestedLevel hi
    omega
  obtain ⟨lower, higher, hlevels, hcontested, hlower, hhigher⟩ := exists_commitmentLevels_eq h
  have hsorted := pairwise_commitmentLevels players
  rw [hlevels, List.append_cons, ← List.cons_append] at hsorted
  have heligible : ∀ level ∈ lower ++ [contestedLevel players],
      eligibleSeats players level ≠ [] := by
    intro level hlevel
    rw [← hcontested, mem_contestedLevels] at hlevel
    exact (eligibleSeats_ne_nil_iff hlevel.1).mpr hlevel.2.1
  -- above the contested level only folded chips are left, which join the last pot
  have hdead : ∀ level ∈ higher, eligibleSeats players level = [] := by
    intro level hlevel
    by_contra hne
    exact (hhigher level hlevel).not_ge
      ((eligibleSeats_ne_nil_iff (h.trans (hhigher level hlevel))).mp hne)
  have hsame : lower.map (fun level => (sliceAt players level, eligibleSeats players level)) =
      lower.map fun level => (potAt players level, eligibleSeats players level) := by
    refine List.map_congr_left fun level hlevel => ?_
    rw [potAt, if_neg (hlower level hlevel).ne, Nat.add_zero]
  rw [buildShowdownPots, hlevels, buildPotsFrom_append,
    buildPotsFrom_eq_slices [] (List.pairwise_append.mp hsorted).1 heligible, List.nil_append,
    slices_contested hlevels hlower hhigher, List.map_append, List.map_singleton,
    buildPotsFrom_of_eligibleSeats_eq_nil hdead, sum_layers_higher hlevels hlower,
    hcontested, List.map_append, List.map_singleton, hsame, potAt, if_pos rfl]

end Pots

/-! ## What the pots pay -/

section Awards

variable {s : GameState n}

/-- A pot pays what splitting it among its strongest hands gives them. -/
theorem awardPot_eq_some {pot : ℕ × List (Fin n)} {award : Fin n → ℤ}
    (h : e.awardPot s pot = some award) :
    award = Engine.splitPot s.dealer pot.1 (strongest e s.board s.players pot.2) := by
  obtain ⟨amount, eligible⟩ := pot
  simp only [Engine.awardPot] at h
  split at h
  case isTrue hnone =>
    obtain rfl := Option.some.inj h
    funext i
    rcases hnone with rfl | rfl
    · have hnobody : (ringAfter n s.dealer).find? (fun _ => false) ≠ some i :=
        fun hfind => Bool.false_ne_true (List.find?_some hfind)
      simp [Engine.splitPot, strongest, hnobody]
    · simp [Engine.splitPot]
  case isFalse =>
    split at h
    case h_1 seat _ =>
      obtain rfl := Option.some.inj h
      funext i
      simp [Engine.splitPot, strongest, Nat.mod_one]
    case h_2 =>
      simp only [Option.bind_eq_bind, Option.bind_eq_some_iff, Option.some.injEq] at h
      obtain ⟨ranks, hranks, rfl⟩ := h
      rw [showdownRanks_eq_some hranks, bestSeats_eq_strongest]

/-- Pots pay together what splitting each of them gives. -/
theorem chipDeltas_eq_splitPots {pots : List (ℕ × List (Fin n))} {chipDeltas : Fin n → ℤ}
    (h : e.awardPots s pots = some chipDeltas) (i : Fin n) :
    chipDeltas i = (pots.map fun pot =>
      Engine.splitPot s.dealer pot.1 (strongest e s.board s.players pot.2) i).sum := by
  induction pots generalizing chipDeltas with
  | nil =>
    obtain rfl := Option.some.inj h
    rfl
  | cons pot pots ih =>
    simp only [Engine.awardPots, Option.bind_eq_bind, Option.bind_eq_some_iff,
      Option.some.injEq] at h
    obtain ⟨award, haward, awards, hawards, rfl⟩ := h
    rw [List.map_cons, List.sum_cons, ← ih hawards, awardPot_eq_some haward]

end Awards

end VibePoker.Game
