import VibePoker.Math.Deviation

/-!
# Sessions

A session plays rounds on one form after the other, with the tallies carried on. The regrets that
it accumulates are on average the counterfactual regrets at the traversals of the owners, each by
the tallies that it found. Where the accumulated regrets are small, so is what an owner could have
gained by going by a plan from the first form on.

## Main definitions

* `session` — rounds on one form after the other
* `sessionBefore` — a session up to the traversal of an owner

## Main results

* `expect_session_regret` — the expected regrets after a session
* `session_no_regret` — no plan gains much over a session
-/

namespace VibePoker.Math

variable {ι κ α : Type} [DecidableEq ι] [DecidableEq κ] [DecidableEq α]

/-- Rounds on the first forms, one after the other. -/
def session (rule : MixRule α) (forms : ℕ → GameForm ι κ α) (owners : List ι)
    (table : κ → Tally α) : ℕ → FinDist (κ → Tally α)
  | 0 => pure table
  | t + 1 => session rule forms owners table t >>= rounds rule (forms t) owners

/-- The tallies that the traversal of the owner `i` finds in a round. -/
def roundsBefore (rule : MixRule α) (g : GameForm ι κ α) (owners : List ι) (i : ι)
    (table : κ → Tally α) : FinDist (κ → Tally α) :=
  rounds rule g (owners.takeWhile (· ≠ i)) table

/-- The tallies that the traversal of the owner `i` finds in the round on the form `t`. -/
def sessionBefore (rule : MixRule α) (forms : ℕ → GameForm ι κ α) (owners : List ι)
    (table : κ → Tally α) (t : ℕ) (i : ι) : FinDist (κ → Tally α) :=
  session rule forms owners table t >>= roundsBefore rule (forms t) owners i

variable {rule : MixRule α} {owners : List ι}

theorem rounds_singleton (rule : MixRule α) (g : GameForm ι κ α) (i : ι) (table : κ → Tally α) :
    rounds rule g [i] table =
      sample rule i g ⟨table, [], []⟩ >>= fun done => pure done.1.tally := by
  rw [rounds, List.foldlM_cons]
  simp only [List.foldlM_nil, bind_pure]

/-! ## Expected regrets -/

omit [DecidableEq ι] in
/-- What comes after an element that stops the search plays no role. -/
theorem takeWhile_append_of_mem {p : ι → Bool} {before after : List ι} {i : ι} (hi : i ∈ before)
    (hp : ¬ p i) : (before ++ after).takeWhile p = before.takeWhile p := by
  induction before with
  | nil => exact absurd hi List.not_mem_nil
  | cons j before ih =>
    rw [List.cons_append, List.takeWhile_cons, List.takeWhile_cons]
    split
    case isTrue hj =>
      rcases List.mem_cons.mp hi with rfl | hi
      · exact absurd hj hp
      · rw [ih hi]
    case isFalse => rfl

/-- The expected regrets after a round: each owner adds those by the tallies that it finds. -/
theorem expect_rounds_regret {g : GameForm ι κ α} (hsep : g.Separated) (hnodup : owners.Nodup)
    (table : κ → Tally α) (J : κ) (a : α) :
    (rounds rule g owners table).expect (fun table' => (table' J).regret a) =
      (table J).regret a + (owners.map fun i => (roundsBefore rule g owners i table).expect
        fun table' => g.regretOf rule table' i J a).sum := by
  induction owners using List.reverseRecOn with
  | nil =>
    rw [List.map_nil, List.sum_nil, add_zero]
    exact FinDist.expect_pure _ _
  | append_singleton owners j ih =>
    obtain ⟨hrest, -, hne⟩ := List.nodup_append.mp hnodup
    have hj : ∀ i ∈ owners, i ≠ j := fun i hi => hne i hi j (List.mem_singleton_self j)
    have hsplit : rounds rule g (owners ++ [j]) table =
        rounds rule g owners table >>= rounds rule g [j] := by
      rw [rounds, List.foldlM_append]
      rfl
    -- the last traversal finds what the others leave
    have hlast : roundsBefore rule g (owners ++ [j]) j table = rounds rule g owners table := by
      rw [roundsBefore, List.takeWhile_append_of_pos fun i hi => decide_eq_true (hj i hi)]
      simp
    have hearlier : (owners.map fun i => (roundsBefore rule g (owners ++ [j]) i table).expect
          fun table' => g.regretOf rule table' i J a) =
        owners.map fun i => (roundsBefore rule g owners i table).expect
          fun table' => g.regretOf rule table' i J a := by
      apply List.map_congr_left
      intro i hi
      rw [roundsBefore, takeWhile_append_of_mem hi (by simp), roundsBefore]
    have hone : ∀ table' : κ → Tally α,
        (rounds rule g [j] table').expect (fun table'' => (table'' J).regret a) =
          (table' J).regret a + g.regretOf rule table' j J a := by
      intro table'
      rw [rounds_singleton, FinDist.expect_bind]
      simp only [FinDist.expect_pure]
      exact @expect_sample_regret _ _ _ _ _ _ rule j table' g hsep ⟨table', [], []⟩
        (fun _ _ => rfl) J a
    rw [hsplit, FinDist.expect_bind]
    simp only [hone]
    rw [FinDist.expect_add, ih hrest, List.map_append, List.sum_append, List.map_singleton,
      List.sum_singleton, hlast, hearlier, add_assoc]

/-- The expected regrets after a session: each owner adds those by the tallies that it finds. -/
theorem expect_session_regret {forms : ℕ → GameForm ι κ α} (hsep : ∀ t, (forms t).Separated)
    (hnodup : owners.Nodup) (table : κ → Tally α) (iters : ℕ) (J : κ) (a : α) :
    (session rule forms owners table iters).expect (fun table' => (table' J).regret a) =
      (table J).regret a + ∑ t ∈ Finset.range iters,
        (owners.map fun i => (sessionBefore rule forms owners table t i).expect
          fun table' => (forms t).regretOf rule table' i J a).sum := by
  induction iters with
  | zero => exact (FinDist.expect_pure _ _).trans (add_zero _).symm
  | succ t ih =>
    rw [session, FinDist.expect_bind]
    simp only [expect_rounds_regret (hsep t) hnodup]
    rw [FinDist.expect_add, ih, FinDist.expect_list_sum, Finset.sum_range_succ, add_assoc]
    simp only [sessionBefore, FinDist.expect_bind]

/-- Regret matching keeps the tallies of a session bounded. -/
theorem session_bounded [Fintype α] (hrule : rule.Matches) {forms : ℕ → GameForm ι κ α}
    (hsep : ∀ t, (forms t).Separated) (hnodup : owners.Nodup) {low : ι → ℚ} {spread : ℚ}
    (hwithin : ∀ t i, (forms t).Within i (low i) (low i + spread)) {table : κ → Tally α}
    (hstart : ∀ J, (table J).Bounded (Fintype.card α * spread ^ 2) 0) (iters : ℕ) :
    (session rule forms owners table iters).Surely fun table' =>
      ∀ J, (table' J).Bounded (Fintype.card α * spread ^ 2) iters := by
  induction iters with
  | zero => exact FinDist.surely_pure hstart
  | succ t ih =>
    refine ih.bind fun table' htable' => ?_
    refine (rounds_credited (hsep t) (hwithin t) hnodup table').mono fun last hlast J => ?_
    rcases hlast J with hsame | hcredited
    · rw [hsame]
      exact (htable' J).mono t.le_succ
    · exact (htable' J).credited hrule hcredited

omit [DecidableEq α] in
/-- The potential of a bounded tally is bounded. -/
theorem Tally.Bounded.potential_regret_le [Fintype α] {cost : ℚ} {credits : ℕ} {t : Tally α}
    (hcost : 0 ≤ cost) (h : t.Bounded cost credits) : potential t.regret ≤ cost * credits :=
  h.potential_le.trans (mul_le_mul_of_nonneg_left h.total_le hcost)

/-! ## No regret -/

section NoRegret

variable [Fintype α] {K : κ → Prop} [DecidablePred K] {plan : κ → α → ℚ} {S : Finset κ}
  {memory : κ → List (κ × α)}

/-- What the owner `i` gains on average in the round on the form `t` if it goes by the plan, by the
tallies that its traversal finds. -/
def planGain (rule : MixRule α) (forms : ℕ → GameForm ι κ α) (owners : List ι)
    (table : κ → Tally α) (K : κ → Prop) [DecidablePred K] (plan : κ → α → ℚ) (t : ℕ) (i : ι) : ℚ :=
  (sessionBefore rule forms owners table t i).expect fun table' =>
    (forms t).deviate rule table' i K plan - (forms t).value rule table' i

omit [DecidableEq κ] [DecidableEq α] in
theorem expect_alongPlan (d : FinDist (κ → Tally α)) (regret : (κ → Tally α) → κ → α → ℚ) :
    (d.expect fun table => alongPlan S memory plan (regret table)) =
      alongPlan S memory plan fun J a => d.expect fun table => regret table J a := by
  simp only [alongPlan, FinDist.expect_sum, FinDist.expect_mul_left]

omit [DecidableEq κ] [DecidableEq α] in
/-- The average of the regrets has at most the potential of the regrets. -/
theorem potential_expect_le {d : FinDist (κ → Tally α)} {J : κ} {bound : ℚ}
    (h : d.Surely fun table => potential (table J).regret ≤ bound) :
    potential (fun a => d.expect fun table => (table J).regret a) ≤ bound := by
  have hoption : ∀ a, max (d.expect fun table => (table J).regret a) 0 ^ 2 ≤
      d.expect fun table => max ((table J).regret a) 0 ^ 2 := by
    intro a
    have hle : max (d.expect fun table => (table J).regret a) 0 ≤
        d.expect fun table => max ((table J).regret a) 0 := by
      apply max_le
      · exact FinDist.expect_le fun o _ => le_max_left _ _
      · calc (0 : ℚ) = d.expect fun _ => 0 := (d.expect_const 0).symm
          _ ≤ _ := FinDist.expect_le fun o _ => le_max_right _ _
    exact (pow_le_pow_left₀ (le_max_right _ _) hle 2).trans (d.sq_expect_le _)
  calc potential (fun a => d.expect fun table => (table J).regret a)
      ≤ ∑ a, d.expect fun table => max ((table J).regret a) 0 ^ 2 :=
        Finset.sum_le_sum fun a _ => hoption a
    _ = d.expect fun table => potential (table J).regret := (d.expect_sum _ _).symm
    _ ≤ d.expect fun _ => bound := FinDist.expect_le h
    _ = bound := d.expect_const bound

/-- Over a session no plan gains much: the regrets that the session accumulates bound what all
owners together gain on average, each by going alone by the plan. -/
theorem session_no_regret {forms : ℕ → GameForm ι κ α} (hsep : ∀ t, (forms t).Separated)
    (hnodup : owners.Nodup) {iters : ℕ} (hplan : IsPlan plan) (hS : ∀ J ∈ S, K J)
    (hrecall : ∀ t < iters, ∀ i ∈ owners, (forms t).Recalls i K memory [])
    (hpermits : ∀ t < iters, ∀ i ∈ owners, (forms t).Permits i K plan)
    (hcover : ∀ t < iters, ∀ i ∈ owners, ∀ J ∈ (forms t).infosOf (· = i), K J → J ∈ S)
    {table : κ → Tally α} (hzero : ∀ J a, (table J).regret a = 0) {bound : ℚ}
    (hbound : (session rule forms owners table iters).Surely fun table' =>
      ∀ J, potential (table' J).regret ≤ bound) :
    max (∑ t ∈ Finset.range iters,
        (owners.map fun i => planGain rule forms owners table K plan t i).sum) 0 ^ 2 ≤
      (S.card : ℚ) ^ 2 * bound := by
  have hgain : ∀ t ∈ Finset.range iters, ∀ i ∈ owners,
      planGain rule forms owners table K plan t i = alongPlan S memory plan fun J a =>
        (sessionBefore rule forms owners table t i).expect fun table' =>
          (forms t).regretOf rule table' i J a := by
    intro t ht i hi
    rw [← expect_alongPlan]
    apply FinDist.expect_congr
    intro o _
    have ht := Finset.mem_range.mp ht
    rw [← GameForm.deviate_sub_value hplan hS (hrecall t ht i hi) (hpermits t ht i hi)
      (hcover t ht i hi), planReach_nil, one_mul]
  have htotal : ∑ t ∈ Finset.range iters,
        (owners.map fun i => planGain rule forms owners table K plan t i).sum =
      alongPlan S memory plan fun J a =>
        (session rule forms owners table iters).expect fun table' => (table' J).regret a := by
    simp only [expect_session_regret hsep hnodup, hzero, zero_add]
    rw [alongPlan_finset_sum]
    apply Finset.sum_congr rfl
    intro t ht
    rw [alongPlan_sum, List.map_congr_left (hgain t ht)]
  rw [htotal]
  apply sq_alongPlan_le hplan
  intro J _
  exact potential_expect_le (hbound.mono fun table' h => h J)

end NoRegret

end VibePoker.Math
