import Mathlib.Data.List.Chain
import Mathlib.Data.List.Nodup
import Mathlib.Data.List.Perm.Basic
import Mathlib.Data.Nat.ModEq

/-!
# Turns around a ring

Positions on a ring are numbers, and its members an increasing list of them. A search for a
member at or after a position meets the arc that the position is in; a pointer to any
position moves on to the next marked one. Turns that go from member to member give each
member one of as many turns as there are members.

## Main definitions

* `Clockwise` — the arcs of the ring
* `firstFrom` — the member found from a position

## Main results

* `firstFrom_eq_succ_iff` — when the member after a given one is found
* `clockwise_next_iff` — when the next marked position is in an arc
* `turns_perm` — turns from member to member
-/

namespace VibePoker.Math

/-! ## Arcs -/

/-- Going clockwise from `a`, the position `x` comes before `b` or is `b`. From a position
to itself the arc is the whole ring. -/
def Clockwise (a x b : ℕ) : Prop := if a < b then a < x ∧ x ≤ b else a < x ∨ x ≤ b

instance (a x b : ℕ) : Decidable (Clockwise a x b) :=
  inferInstanceAs (Decidable (if a < b then _ else _))

/-- Index of the first member at or after a position, around the ring. -/
def firstFrom (members : List ℕ) (position : ℕ) : ℕ :=
  (members.findIdx? fun x => position ≤ x).getD 0

variable {members : List ℕ}

theorem getElem_lt_of_pairwise (h : members.Pairwise (· < ·)) {i j : ℕ} (hij : i < j)
    (hj : j < members.length) : members[i] < members[j] :=
  List.pairwise_iff_getElem.mp h i j (hij.trans hj) hj hij

theorem getElem_le_of_pairwise (h : members.Pairwise (· < ·)) {i j : ℕ} (hij : i ≤ j)
    (hj : j < members.length) : members[i] ≤ members[j] := by
  rcases hij.eq_or_lt with rfl | hlt
  · exact le_rfl
  · exact (getElem_lt_of_pairwise h hlt hj).le

/-- What the search finds: the members before it are passed, or all of them are. -/
theorem firstFrom_cases (members : List ℕ) (position : ℕ) :
    (firstFrom members position = 0 ∧ ∀ x ∈ members, x < position) ∨
      ∃ h : firstFrom members position < members.length,
        position ≤ members[firstFrom members position] ∧
          ∀ j (hj : j < firstFrom members position), members[j] < position := by
  cases hfind : members.findIdx? fun x => position ≤ x with
  | none =>
    refine Or.inl ⟨by rw [firstFrom, hfind]; rfl, fun x hx => ?_⟩
    simpa using List.findIdx?_eq_none_iff.mp hfind x hx
  | some i =>
    have hfirst : firstFrom members position = i := by rw [firstFrom, hfind]; rfl
    obtain ⟨hlt, hle, hbefore⟩ := List.findIdx?_eq_some_iff_getElem.mp hfind
    subst hfirst
    refine Or.inr ⟨hlt, by simpa using hle, fun j hj => ?_⟩
    simpa using hbefore j hj

theorem firstFrom_lt (hpos : 0 < members.length) (position : ℕ) :
    firstFrom members position < members.length := by
  rcases firstFrom_cases members position with ⟨hzero, -⟩ | ⟨hlt, -⟩
  · rwa [hzero]
  · exact hlt

/-- The member after the one at `i` is found from the positions on the arc between them. -/
theorem firstFrom_eq_succ_iff (h : members.Pairwise (· < ·)) {i : ℕ} (hi : i < members.length)
    (hlen : 2 ≤ members.length) (hsucc : (i + 1) % members.length < members.length)
    (position : ℕ) :
    firstFrom members position = (i + 1) % members.length ↔
      Clockwise members[i] position members[(i + 1) % members.length] := by
  rcases Nat.lt_or_ge (i + 1) members.length with hlt | hge
  · have hmod : (i + 1) % members.length = i + 1 := Nat.mod_eq_of_lt hlt
    have hstep := getElem_lt_of_pairwise h (Nat.lt_succ_self i) hlt
    simp only [hmod, Clockwise, if_pos hstep]
    rcases firstFrom_cases members position with ⟨hzero, hall⟩ | ⟨hfirst, hle, hbefore⟩
    · have := hall members[i + 1] (List.getElem_mem hlt)
      omega
    · constructor
      · intro heq
        exact ⟨hbefore i (by omega), by simpa only [heq] using hle⟩
      · rintro ⟨hgt, hle'⟩
        -- neither earlier nor later members are found
        rcases Nat.lt_trichotomy (firstFrom members position) (i + 1) with hearly | heq | hlate
        · have := getElem_le_of_pairwise h (Nat.lt_succ_iff.mp hearly) hi
          omega
        · exact heq
        · have := hbefore (i + 1) hlate
          omega
  · have hlast : i + 1 = members.length := by omega
    have hmod : (i + 1) % members.length = 0 := by rw [hlast, Nat.mod_self]
    have hstep : members[0] < members[i] := getElem_lt_of_pairwise h (by omega) hi
    simp only [hmod, Clockwise, if_neg hstep.not_gt]
    rcases firstFrom_cases members position with ⟨hzero, hall⟩ | ⟨hfirst, hle, hbefore⟩
    · exact iff_of_true hzero (Or.inl (hall _ (List.getElem_mem hi)))
    · have hend := getElem_le_of_pairwise h (show firstFrom members position ≤ i by omega) hi
      constructor
      · intro heq
        exact Or.inr (by simpa only [heq] using hle)
      · rintro (hgt | hle')
        · omega
        · by_contra hne
          have := hbefore 0 (Nat.pos_of_ne_zero hne)
          omega

/-! ## A pointer that moves on -/

/-- The pointer moves from `b` to `b'`, the next marked position clockwise if there is one. -/
def MovesOn (marked : ℕ → Prop) (b b' : ℕ) : Prop :=
  (b' = b ∧ ∀ x, ¬ marked x) ∨ (marked b' ∧ ∀ x, marked x → Clockwise b x b' → x = b')

/-- A pointer before or at `d`, and behind `s`, moves on to the arc from `d` to `s` if it
passes `d` and there is a marked position on the arc. -/
theorem clockwise_next_iff {marked : ℕ → Prop} {b b' d s : ℕ} (hmove : MovesOn marked b b')
    (hds : d ≠ s) (hbehind : ¬ Clockwise d b s) :
    Clockwise d b' s ↔
      (b = d ∨ ∀ x, marked x → ¬ Clockwise b x d) ∧ ∃ x, marked x ∧ Clockwise d x s := by
  constructor
  · intro harc
    rcases hmove with ⟨rfl, -⟩ | ⟨hmarked, hfirst⟩
    · exact absurd harc hbehind
    · refine ⟨or_iff_not_imp_left.mpr fun hne x hx hbetween => ?_, b', hmarked, harc⟩
      have hsame : Clockwise b x b' → x = b' := hfirst x hx
      simp only [Clockwise] at *
      split_ifs at * <;> omega
  · rintro ⟨hpass, x, hx, harc⟩
    rcases hmove with ⟨-, hnone⟩ | ⟨hmarked, hfirst⟩
    · exact absurd hx (hnone x)
    · have hsame : Clockwise b x b' → x = b' := hfirst x hx
      by_contra hnot
      rcases hpass with rfl | hpass
      · simp only [Clockwise] at *
        split_ifs at * <;> omega
      · have hclear := hpass b' hmarked
        simp only [Clockwise] at *
        split_ifs at * <;> omega

/-! ## Turns from member to member -/

/-- Turns that go from each index to the next one, around a ring of `k`. -/
theorem turns_eq {k : ℕ} {turns : List ℕ} (h : turns.IsChain fun i j => j = (i + 1) % k)
    (hlt : ∀ i ∈ turns, i < k) :
    turns = (List.range turns.length).map fun j => (turns.headD 0 + j) % k := by
  induction turns with
  | nil => rfl
  | cons i turns ih =>
    have hi := Nat.mod_eq_of_lt (hlt i List.mem_cons_self)
    rw [List.length_cons, List.range_succ_eq_map, List.map_cons, List.map_map, List.headD_cons,
      Nat.add_zero, hi]
    congr 1
    cases turns with
    | nil => rfl
    | cons j turns =>
      obtain ⟨rfl, hrest⟩ := List.isChain_cons_cons.mp h
      have hlater := ih hrest fun i hi => hlt i (List.mem_cons_of_mem _ hi)
      rw [hlater]
      simp only [List.length_map, List.length_range, List.headD_cons]
      refine List.map_congr_left fun l _ => ?_
      simp only [Function.comp_apply, Nat.mod_add_mod]
      congr 1
      omega

/-- As many turns as there are members give each member one. -/
theorem turns_perm {k : ℕ} {turns : List ℕ} (h : turns.IsChain fun i j => j = (i + 1) % k)
    (hlt : ∀ i ∈ turns, i < k) (hlen : turns.length = k) : turns.Perm (List.range k) := by
  have heq := turns_eq h hlt
  rw [hlen] at heq
  have hnodup : turns.Nodup := by
    rw [heq]
    refine List.Nodup.map_on (fun i hi j hj hij => ?_) List.nodup_range
    have hmod : Nat.ModEq k i j := Nat.ModEq.add_left_cancel' _ hij
    exact hmod.eq_of_lt_of_lt (List.mem_range.mp hi) (List.mem_range.mp hj)
  refine (List.subperm_of_subset hnodup fun i hi => List.mem_range.mpr (hlt i hi)).perm_of_length_le ?_
  rw [List.length_range, hlen]

end VibePoker.Math
