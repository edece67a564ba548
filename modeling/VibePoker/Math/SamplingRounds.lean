import Mathlib.Algebra.Order.Ring.Abs
import VibePoker.Math.ExternalSampling

/-!
# Rounds of external sampling

A round traverses a form once for each owner in a list, one after the other, each from the
tallies that the last one left. The traversals before that of an owner change the tallies of the
others, but only so far, and not the owner's; those after it do not change the owner's either.

## Main definitions

* `rounds` — traversals for several owners
* `GameForm.drift` — a bound on how far a traversal moves a regret

## Main results

* `expect_rounds_strategySum` — the expected strategy sums of an owner after a round
* `rounds_regret` — how far the regrets are moved
-/

namespace VibePoker.Math

variable {ι κ α : Type} [DecidableEq ι] [DecidableEq κ] [DecidableEq α]

/-! ## How far a traversal moves the regrets -/

namespace GameForm

/-- A bound on what a form can be worth to an owner. -/
def stakes (i : ι) : GameForm ι κ α → ℚ
  | leaf utility => |utility i|
  | decision _ _ menu next => (menu.actions.map fun a => stakes i (next a)).sum

/-- A bound on how far a traversal moves a regret. -/
def drift (i : ι) : GameForm ι κ α → ℚ
  | leaf _ => 0
  | decision owner info menu next =>
    2 * (decision owner info menu next).stakes i + (menu.actions.map fun a => drift i (next a)).sum

omit [DecidableEq ι] [DecidableEq κ] [DecidableEq α] in
theorem stakes_nonneg (i : ι) (g : GameForm ι κ α) : 0 ≤ g.stakes i := by
  induction g with
  | leaf utility => exact abs_nonneg _
  | decision owner info menu next ih =>
    exact List.sum_nonneg (List.forall_mem_map.mpr fun a _ => ih a)

omit [DecidableEq ι] [DecidableEq κ] [DecidableEq α] in
theorem drift_nonneg (i : ι) (g : GameForm ι κ α) : 0 ≤ g.drift i := by
  induction g with
  | leaf utility => exact le_rfl
  | decision owner info menu next ih =>
    exact add_nonneg (mul_nonneg zero_le_two (stakes_nonneg i _))
      (List.sum_nonneg (List.forall_mem_map.mpr fun a _ => ih a))

omit [DecidableEq ι] [DecidableEq κ] [DecidableEq α] in
theorem stakes_next_le {i : ι} {owner : ι} {info : κ} {menu : Menu α}
    {next : α → GameForm ι κ α} {a : α} (ha : a ∈ menu.actions) :
    (next a).stakes i ≤ (decision owner info menu next).stakes i :=
  List.single_le_sum (List.forall_mem_map.mpr fun b _ => stakes_nonneg i (next b)) _
    (List.mem_map_of_mem ha)

omit [DecidableEq ι] [DecidableEq κ] [DecidableEq α] in
theorem drift_next_le {i : ι} {owner : ι} {info : κ} {menu : Menu α}
    {next : α → GameForm ι κ α} {a : α} (ha : a ∈ menu.actions) :
    (next a).drift i ≤ (decision owner info menu next).drift i := by
  have hsum : (next a).drift i ≤ (menu.actions.map fun b => (next b).drift i).sum :=
    List.single_le_sum (List.forall_mem_map.mpr fun b _ => drift_nonneg i (next b)) _
      (List.mem_map_of_mem ha)
  exact hsum.trans (le_add_of_nonneg_left (mul_nonneg zero_le_two (stakes_nonneg i _)))

end GameForm

variable {rule : MixRule α} {i : ι}

theorem MixRule.weight_le_one (rule : MixRule α) (regret : α → ℚ) (menu : Menu α) (a : α) :
    rule.weight regret menu a ≤ 1 := by
  by_cases ha : a ∈ menu.actions
  · rw [← rule.total regret menu]
    exact List.single_le_sum (List.forall_mem_map.mpr fun b _ => rule.nonneg regret menu b) _
      (List.mem_map_of_mem ha)
  · rw [rule.off regret menu a ha]
    exact zero_le_one

/-- What a traversal returns, and how far it moves the regrets. -/
theorem sample_bounds (g : GameForm ι κ α) (s : Ledger κ α) :
    (sample rule i g s).Surely fun r => |r.2| ≤ g.stakes i ∧
      ∀ J a, |(r.1.tally J).regret a - (s.tally J).regret a| ≤ g.drift i := by
  induction g generalizing s with
  | leaf utility =>
    refine FinDist.surely_pure ⟨le_rfl, fun J a => ?_⟩
    rw [sub_self, abs_zero]
    exact le_rfl
  | decision owner info menu next ih =>
    have hstakes := GameForm.stakes_nonneg i (GameForm.decision owner info menu next)
    rw [sample]
    split
    case isTrue =>
      -- what an enumeration may still add is kept beside what it has added
      refine FinDist.Surely.bind (enumerate_surely (fun rest u values value =>
        (∀ b, |values b| ≤ (GameForm.decision owner info menu next).stakes i) ∧
        (∀ b ∈ rest, b ∈ menu.actions) ∧
        |value| + (rest.map fun b => (next b).stakes i).sum ≤
          (GameForm.decision owner info menu next).stakes i ∧
        ∀ J a, |(u.tally J).regret a - (s.tally J).regret a| +
            (rest.map fun b => (next b).drift i).sum ≤
          (menu.actions.map fun b => (next b).drift i).sum) ?keep ?start) ?credit
      case keep =>
        rintro b rest u values value ⟨hvalues, hmenu, hvalue, hmoved⟩
        refine (ih b u).mono fun r hr => ⟨fun c => ?_,
          fun c hc => hmenu c (List.mem_cons_of_mem b hc), ?_, fun J a => ?_⟩
        · by_cases hc : c = b
          · rw [hc, Function.update_self]
            exact hr.1.trans (GameForm.stakes_next_le (hmenu b List.mem_cons_self))
          · rw [Function.update_of_ne hc]
            exact hvalues c
        · have hweight := rule.weight_le_one (s.tally info).regret menu b
          have hnonneg := rule.nonneg (s.tally info).regret menu b
          rw [List.map_cons, List.sum_cons] at hvalue
          have hterm : |rule.weight (s.tally info).regret menu b * r.2| ≤ (next b).stakes i := by
            rw [abs_mul, abs_of_nonneg hnonneg]
            exact (mul_le_of_le_one_left (abs_nonneg _) hweight).trans hr.1
          have hadd := abs_add_le value (rule.weight (s.tally info).regret menu b * r.2)
          linarith
        · have hprev := hmoved J a
          rw [List.map_cons, List.sum_cons] at hprev
          have hstep := hr.2 J a
          have hadd := abs_sub_le ((r.1.tally J).regret a) ((u.tally J).regret a)
            ((s.tally J).regret a)
          linarith
      case start =>
        refine ⟨fun b => by rwa [abs_zero], fun _ hb => hb, ?_, fun J a => ?_⟩
        · rw [abs_zero, zero_add]
          exact le_rfl
        · rw [Ledger.use_tally, sub_self, abs_zero, zero_add]
      case credit =>
        rintro r ⟨hvalues, -, hvalue, hmoved⟩
        rw [List.map_nil, List.sum_nil, add_zero] at hvalue
        refine FinDist.surely_pure ⟨hvalue, fun J a => ?_⟩
        have hprev := hmoved J a
        rw [List.map_nil, List.sum_nil, add_zero] at hprev
        rw [GameForm.drift]
        by_cases hJ : J = info
        · subst hJ
          rw [Ledger.credit_tally]
          dsimp only
          split
          · -- the credit is one difference of two values, each within the stakes
            have hearned := abs_sub (r.2.1 a) r.2.2
            have hadd := abs_add_le ((r.1.tally J).regret a - (s.tally J).regret a)
              (r.2.1 a - r.2.2)
            have hvalue' := hvalues a
            rw [add_sub_right_comm]
            linarith
          · linarith
        · rw [Ledger.credit_of_ne _ hJ]
          linarith
    case isFalse =>
      refine (rule.surely_draw _ menu).bind fun b hb => (ih b _).mono fun r hr => ?_
      exact ⟨hr.1.trans (GameForm.stakes_next_le hb),
        fun J a => (hr.2 J a).trans (GameForm.drift_next_le hb)⟩

/-! ## Rounds -/

/-- Traversals for the listed owners, one after the other. -/
def rounds (rule : MixRule α) (g : GameForm ι κ α) (owners : List ι) (table : κ → Tally α) :
    FinDist (κ → Tally α) :=
  owners.foldlM (fun table i => do
    let done ← sample rule i g ⟨table, [], []⟩
    pure done.1.tally) table

variable {g : GameForm ι κ α}

theorem rounds_cons (i : ι) (owners : List ι) (table : κ → Tally α) :
    rounds rule g (i :: owners) table =
      (sample rule i g ⟨table, [], []⟩ >>= fun done => pure done.1.tally) >>=
        rounds rule g owners := rfl

/-- What each traversal keeps, a round keeps. -/
theorem rounds_surely (Inv : List ι → (κ → Tally α) → Prop)
    (hkeep : ∀ i rest table, Inv (i :: rest) table →
      (sample rule i g ⟨table, [], []⟩).Surely fun done => Inv rest done.1.tally)
    {owners : List ι} {table : κ → Tally α} (h : Inv owners table) :
    (rounds rule g owners table).Surely (Inv []) := by
  induction owners generalizing table with
  | nil => exact FinDist.surely_pure h
  | cons i rest ih =>
    rw [rounds_cons]
    refine FinDist.Surely.bind ((hkeep i rest table h).bind fun done hdone =>
      FinDist.surely_pure hdone) fun table' htable' => ih htable'

/-- How far the regrets are moved. -/
theorem rounds_regret (owners : List ι) (table : κ → Tally α) :
    (rounds rule g owners table).Surely fun table' => ∀ J a,
      |(table' J).regret a - (table J).regret a| ≤ (owners.map fun i => g.drift i).sum := by
  refine (rounds_surely (fun rest table' => ∀ J a,
    |(table' J).regret a - (table J).regret a| + (rest.map fun i => g.drift i).sum ≤
      (owners.map fun i => g.drift i).sum) ?_ ?_).mono fun table' h J a => ?_
  · intro i rest table' h
    refine (sample_bounds g ⟨table', [], []⟩).mono fun done hdone J a => ?_
    have hprev := h J a
    rw [List.map_cons, List.sum_cons] at hprev
    have hstep := hdone.2 J a
    have hadd := abs_sub_le ((done.1.tally J).regret a) ((table' J).regret a)
      ((table J).regret a)
    linarith
  · intro J a
    rw [sub_self, abs_zero, zero_add]
  · have hlast := h J a
    rwa [List.map_nil, List.sum_nil, add_zero] at hlast

/-- The tallies of an owner are not touched by the traversals for others. -/
theorem rounds_others (hsep : g.Separated) {owners : List ι} (hi : i ∉ owners)
    (table : κ → Tally α) {line : List α} {J : κ} {menu : Menu α} {next : α → GameForm ι κ α}
    (hwalk : GameForm.walk line g = some (.decision i J menu next)) :
    (rounds rule g owners table).Surely fun table' => table' J = table J := by
  refine (rounds_surely (fun rest table' => i ∉ rest ∧ table' J = table J) ?_ ⟨hi, rfl⟩).mono
    fun _ h => h.2
  rintro j rest table' ⟨hnot, hsame⟩
  obtain ⟨hne, hrest⟩ := not_or.mp (mt List.mem_cons.mpr hnot)
  refine (sample_credits hsep ⟨table', [], []⟩).mono fun done hdone => ⟨hrest, ?_⟩
  refine (hdone.kept fun hmem => ?_).trans hsame
  obtain ⟨line', owner', menu', next', hwalk', rfl⟩ := GameForm.exists_walk_of_mem hmem
  obtain rfl := hsep.line_unique hwalk hwalk'
  rw [hwalk] at hwalk'
  exact hne (GameForm.decision.inj (Option.some.inj hwalk')).1

/-- The expected strategy sums of an owner after a round: the owner's mixture, weighted with the
others' reach by the tallies that the earlier traversals leave. -/
theorem expect_rounds_strategySum (hsep : g.Separated) {before after : List ι}
    (hbefore : i ∉ before) (hafter : i ∉ after) (table : κ → Tally α) {line : List α} {J : κ}
    {menu : Menu α} {next : α → GameForm ι κ α}
    (hwalk : GameForm.walk line g = some (.decision i J menu next)) (a : α) :
    (rounds rule g (before ++ i :: after) table).expect (fun table' => (table' J).strategySum a) =
      (table J).strategySum a +
        (rounds rule g before table).expect
          (fun table' => GameForm.reach rule table' (· ≠ i) line g) *
            rule.weight (table J).regret menu a := by
  have hsplit : rounds rule g (before ++ i :: after) table =
      rounds rule g before table >>= rounds rule g (i :: after) := by
    rw [rounds, List.foldlM_append]
    rfl
  -- a round from the traversal of the owner on
  have hround : ∀ table', table' J = table J →
      (rounds rule g (i :: after) table').expect (fun table'' => (table'' J).strategySum a) =
        (table J).strategySum a + GameForm.reach rule table' (· ≠ i) line g *
          rule.weight (table J).regret menu a := by
    intro table' hsame
    have hlater : ∀ table'', (rounds rule g after table'').expect
        (fun last => (last J).strategySum a) = (table'' J).strategySum a := by
      intro table''
      have hkept : (rounds rule g after table'').Surely
          fun last => (last J).strategySum a = (table'' J).strategySum a :=
        (rounds_others hsep hafter table'' hwalk).mono fun last h => by rw [h]
      rw [FinDist.expect_congr hkept, FinDist.expect_const]
    have hsum := @expect_sample_strategySum _ _ _ _ _ _ rule i table' g hsep ⟨table', [], []⟩
      (fun _ _ => rfl) J a
    rw [gain_of_walk hsep hwalk] at hsum
    dsimp only at hsum
    rw [hsame] at hsum
    rw [rounds_cons, FinDist.expect_bind, FinDist.expect_bind]
    simp only [hlater, FinDist.expect_pure]
    exact hsum
  rw [hsplit, FinDist.expect_bind]
  calc (rounds rule g before table).expect (fun table' =>
        (rounds rule g (i :: after) table').expect fun table'' => (table'' J).strategySum a)
      = (rounds rule g before table).expect (fun table' =>
          GameForm.reach rule table' (· ≠ i) line g * rule.weight (table J).regret menu a +
            (table J).strategySum a) :=
        FinDist.expect_congr ((rounds_others hsep hbefore table hwalk).mono fun table' h => by
          rw [hround table' h, add_comm])
    _ = _ := by rw [FinDist.expect_add, FinDist.expect_mul_right, FinDist.expect_const, add_comm]

end VibePoker.Math
