import Mathlib.Algebra.Order.BigOperators.Ring.Finset
import Mathlib.Algebra.Order.Chebyshev
import VibePoker.Math.RegretMatching

/-!
# Deviations to a plan

An owner may go by a plan of its own at some of its infos, while everything else is drawn by the
rule. Where the owner remembers, at each of these infos, which of them it has passed and what it
chose there, the gain from going by the plan is made up of the regrets: each info contributes the
regrets of its options, weighted by the plan and by what the plan lets the info be reached with.

## Main definitions

* `GameForm.deviate` — what a form is worth to an owner that goes by a plan
* `GameForm.regretOf` — the counterfactual regret of an option
* `GameForm.Recalls` — an owner remembers its play
* `alongPlan` — regrets, weighted by a plan

## Main results

* `deviate_sub_value` — the gain from a plan is made up of regrets
* `sq_alongPlan_le` — where the regrets are small, no plan gains much
-/

namespace VibePoker.Math

variable {ι κ α : Type}

theorem sum_map_sub (l : List α) (f g : α → ℚ) :
    (l.map fun a => f a - g a).sum = (l.map f).sum - (l.map g).sum := by
  induction l with
  | nil => exact (sub_zero 0).symm
  | cons a l ih =>
    simp only [List.map_cons, List.sum_cons]
    rw [ih]
    ring

/-! ## Plans -/

/-- What a plan contributes to the probability of choices that were made at infos. -/
def planReach (plan : κ → α → ℚ) (past : List (κ × α)) : ℚ :=
  (past.map fun choice => plan choice.1 choice.2).prod

theorem planReach_nil (plan : κ → α → ℚ) : planReach plan [] = 1 := rfl

theorem planReach_append_singleton (plan : κ → α → ℚ) (past : List (κ × α)) (J : κ) (a : α) :
    planReach plan (past ++ [(J, a)]) = planReach plan past * plan J a := by
  rw [planReach, List.map_append, List.prod_append, planReach, List.map_singleton,
    List.prod_singleton]

section Fintype

variable [Fintype α]

/-- A plan mixes the options at each info. -/
structure IsPlan (plan : κ → α → ℚ) : Prop where
  nonneg : ∀ J a, 0 ≤ plan J a
  total : ∀ J, ∑ a, plan J a = 1

namespace IsPlan

variable {plan : κ → α → ℚ}

theorem le_one (h : IsPlan plan) (J : κ) (a : α) : plan J a ≤ 1 := by
  rw [← h.total J]
  exact Finset.single_le_sum (fun b _ => h.nonneg J b) (Finset.mem_univ a)

theorem planReach_nonneg (h : IsPlan plan) (past : List (κ × α)) : 0 ≤ planReach plan past := by
  induction past with
  | nil => exact zero_le_one
  | cons choice past ih => exact mul_nonneg (h.nonneg choice.1 choice.2) ih

theorem planReach_le_one (h : IsPlan plan) (past : List (κ × α)) : planReach plan past ≤ 1 := by
  induction past with
  | nil => exact le_rfl
  | cons choice past ih =>
    exact mul_le_one₀ (h.le_one choice.1 choice.2) (h.planReach_nonneg past) ih

/-- A mixture of options has at most the square of what they have together. -/
theorem sq_mixture_le (h : IsPlan plan) (J : κ) (f : α → ℚ) :
    (∑ a, plan J a * f a) ^ 2 ≤ ∑ a, f a ^ 2 := by
  have hsquares : ∑ a, plan J a ^ 2 ≤ 1 := by
    rw [← h.total J]
    apply Finset.sum_le_sum
    intro a _
    rw [sq]
    exact mul_le_of_le_one_left (h.nonneg J a) (h.le_one J a)
  calc (∑ a, plan J a * f a) ^ 2
      ≤ (∑ a, plan J a ^ 2) * ∑ a, f a ^ 2 := Finset.sum_mul_sq_le_sq_mul_sq _ _ _
    _ ≤ ∑ a, f a ^ 2 :=
        mul_le_of_le_one_left (Finset.sum_nonneg fun a _ => sq_nonneg (f a)) hsquares

end IsPlan

/-! ## Regrets along a plan -/

/-- Regrets at the infos in `S`, weighted by a plan; `memory` tells what an info remembers. -/
def alongPlan (S : Finset κ) (memory : κ → List (κ × α)) (plan regret : κ → α → ℚ) : ℚ :=
  ∑ J ∈ S, planReach plan (memory J) * ∑ a, plan J a * regret J a

section AlongPlan

variable {S : Finset κ} {memory : κ → List (κ × α)} {plan : κ → α → ℚ}

theorem alongPlan_zero : alongPlan S memory plan (fun _ _ => 0) = 0 := by
  simp only [alongPlan, mul_zero, Finset.sum_const_zero]

theorem alongPlan_add (regret regret' : κ → α → ℚ) :
    alongPlan S memory plan (fun J a => regret J a + regret' J a) =
      alongPlan S memory plan regret + alongPlan S memory plan regret' := by
  simp only [alongPlan, mul_add, Finset.sum_add_distrib]

theorem alongPlan_mul_left (c : ℚ) (regret : κ → α → ℚ) :
    alongPlan S memory plan (fun J a => c * regret J a) = c * alongPlan S memory plan regret := by
  simp only [alongPlan, Finset.mul_sum, mul_left_comm _ c]

theorem alongPlan_sum {γ : Type} (l : List γ) (regret : γ → κ → α → ℚ) :
    alongPlan S memory plan (fun J a => (l.map fun c => regret c J a).sum) =
      (l.map fun c => alongPlan S memory plan (regret c)).sum := by
  induction l with
  | nil => exact alongPlan_zero
  | cons c l ih =>
    simp only [List.map_cons, List.sum_cons]
    rw [alongPlan_add, ih]

theorem alongPlan_finset_sum {γ : Type} (l : Finset γ) (regret : γ → κ → α → ℚ) :
    alongPlan S memory plan (fun J a => ∑ c ∈ l, regret c J a) =
      ∑ c ∈ l, alongPlan S memory plan (regret c) := by
  rw [← Finset.sum_map_toList l, ← alongPlan_sum]
  simp only [Finset.sum_map_toList]

/-- Only the regrets at the infos in `S` count. -/
theorem alongPlan_congr {regret regret' : κ → α → ℚ}
    (h : ∀ J ∈ S, ∀ a, regret J a = regret' J a) :
    alongPlan S memory plan regret = alongPlan S memory plan regret' := by
  apply Finset.sum_congr rfl
  intro J hJ
  simp only [h J hJ]

/-- Regrets at one info. -/
theorem alongPlan_single [DecidableEq κ] {J : κ} (hJ : J ∈ S) (regret : α → ℚ) :
    alongPlan S memory plan (fun K a => if J = K then regret a else 0) =
      planReach plan (memory J) * ∑ a, plan J a * regret a := by
  rw [alongPlan, Finset.sum_eq_single_of_mem J hJ]
  · simp only [if_true]
  · intro K _ hne
    simp only [if_neg hne.symm, mul_zero, Finset.sum_const_zero]

variable (memory) in
/-- What the options on a menu are worth more than a decision, if the plan keeps to the menu. -/
theorem alongPlan_menu [DecidableEq κ] [DecidableEq α] (hplan : IsPlan plan) {J : κ} (hJ : J ∈ S)
    {menu : Menu α} (hmenu : ∀ a ∉ menu.actions, plan J a = 0) (worth : α → ℚ) (value : ℚ) :
    alongPlan S memory plan (fun K a => if J = K then
        if a ∈ menu.actions then worth a - value else 0 else 0) =
      planReach plan (memory J) *
        ((menu.actions.map fun a => plan J a * worth a).sum - value) := by
  have htotal : (menu.actions.map (plan J)).sum = 1 := by
    rw [← hplan.total J, ← menu.sum_univ_ite]
    apply Finset.sum_congr rfl
    intro a _
    split
    · rfl
    · exact (hmenu a ‹_›).symm
  have hsplit : ∑ a, plan J a * (if a ∈ menu.actions then worth a - value else 0) =
      (menu.actions.map fun a => plan J a * worth a).sum - value := by
    simp only [mul_ite, mul_zero]
    rw [menu.sum_univ_ite]
    simp only [mul_sub]
    rw [sum_map_sub, List.sum_map_mul_right, htotal, one_mul]
  rw [alongPlan_single hJ, hsplit]

/-- Where the positive regrets are small at each info, they are small along every plan. -/
theorem sq_alongPlan_le (hplan : IsPlan plan) {regret : κ → α → ℚ} {bound : ℚ}
    (h : ∀ J ∈ S, potential (regret J) ≤ bound) :
    max (alongPlan S memory plan regret) 0 ^ 2 ≤ (S.card : ℚ) ^ 2 * bound := by
  -- what an info contributes at most
  let most : κ → ℚ := fun J => ∑ a, plan J a * max (regret J a) 0
  have hmost : ∀ J, 0 ≤ most J := fun J =>
    Finset.sum_nonneg fun a _ => mul_nonneg (hplan.nonneg J a) (le_max_right _ _)
  have hterm : ∀ J ∈ S,
      planReach plan (memory J) * ∑ a, plan J a * regret J a ≤ most J := by
    intro J _
    have hle : ∑ a, plan J a * regret J a ≤ most J := by
      apply Finset.sum_le_sum
      intro a _
      exact mul_le_mul_of_nonneg_left (le_max_left _ _) (hplan.nonneg J a)
    calc planReach plan (memory J) * ∑ a, plan J a * regret J a
        ≤ planReach plan (memory J) * most J :=
          mul_le_mul_of_nonneg_left hle (hplan.planReach_nonneg _)
      _ ≤ most J := mul_le_of_le_one_left (hmost J) (hplan.planReach_le_one _)
  have hsquare : ∀ J ∈ S, most J ^ 2 ≤ bound := fun J hJ =>
    (hplan.sq_mixture_le J fun a => max (regret J a) 0).trans (h J hJ)
  have htotal : max (alongPlan S memory plan regret) 0 ≤ ∑ J ∈ S, most J :=
    max_le (Finset.sum_le_sum hterm) (Finset.sum_nonneg fun J _ => hmost J)
  calc max (alongPlan S memory plan regret) 0 ^ 2
      ≤ (∑ J ∈ S, most J) ^ 2 := pow_le_pow_left₀ (le_max_right _ _) htotal 2
    _ ≤ S.card * ∑ J ∈ S, most J ^ 2 := sq_sum_le_card_mul_sum_sq
    _ ≤ S.card * (S.card * bound) := by
        apply mul_le_mul_of_nonneg_left _ (Nat.cast_nonneg _)
        exact (Finset.sum_le_card_nsmul S _ bound hsquare).trans_eq (nsmul_eq_mul _ _)
    _ = (S.card : ℚ) ^ 2 * bound := by rw [sq, mul_assoc]

end AlongPlan

end Fintype

/-! ## Deviations -/

namespace GameForm

variable [DecidableEq ι] [DecidableEq κ] [DecidableEq α]

/-- What the owner `i` gets on average when it goes by the plan at its infos in `K`, and
everything else is drawn by the rule. -/
def deviate (rule : MixRule α) (table : κ → Tally α) (i : ι) (K : κ → Prop) [DecidablePred K]
    (plan : κ → α → ℚ) : GameForm ι κ α → ℚ
  | leaf utility => utility i
  | decision owner info menu next =>
    (menu.actions.map fun a =>
      (if owner = i ∧ K info then plan info a else rule.weight (table info).regret menu a) *
        deviate rule table i K plan (next a)).sum

/-- The counterfactual regret of the option `a` at the info `J` of the owner `i`: what the option
is worth more than the decision, times the probability with which the others let the decision be
reached. -/
def regretOf (rule : MixRule α) (table : κ → Tally α) (i : ι) (J : κ) (a : α)
    (g : GameForm ι κ α) : ℚ :=
  gain rule table i J (fun info menu next =>
    if a ∈ menu.actions then
      (next a).value rule table i - (decision i info menu next).value rule table i
    else 0) g

/-- At each of its infos in `K` the owner `i` remembers which of them it has passed, and what it
chose there: `memory` tells what an info remembers, and `past` are the choices before the form.
After an info off `K` there are none in `K`. -/
def Recalls (i : ι) (K : κ → Prop) (memory : κ → List (κ × α)) :
    List (κ × α) → GameForm ι κ α → Prop
  | _, leaf _ => True
  | past, decision owner info menu next =>
    if owner = i then
      (K info → memory info = past ∧
        ∀ a ∈ menu.actions, Recalls i K memory (past ++ [(info, a)]) (next a)) ∧
      (¬ K info → ∀ a ∈ menu.actions, ∀ J ∈ (next a).infosOf (· = i), ¬ K J)
    else ∀ a ∈ menu.actions, Recalls i K memory past (next a)

/-- The plan keeps to the menus of the owner `i` at its infos in `K`. -/
def Permits (i : ι) (K : κ → Prop) (plan : κ → α → ℚ) (g : GameForm ι κ α) : Prop :=
  ∀ line J menu next, walk line g = some (decision i J menu next) → K J →
    ∀ a ∉ menu.actions, plan J a = 0

variable {rule : MixRule α} {table : κ → Tally α} {i : ι} {K : κ → Prop} [DecidablePred K]
  {plan : κ → α → ℚ}

omit [DecidableEq κ] [DecidableEq ι] [DecidablePred K] in
theorem Permits.next {owner : ι} {info : κ} {menu : Menu α} {next : α → GameForm ι κ α}
    (h : (decision owner info menu next).Permits i K plan) {a : α} (ha : a ∈ menu.actions) :
    (next a).Permits i K plan := by
  intro line J menu' next' hwalk
  apply h (a :: line) J menu' next'
  rw [walk, if_pos ha]
  exact hwalk

omit [DecidableEq κ] [DecidableEq α] [DecidablePred K] in
/-- Without an info in `K` there is nothing to remember. -/
theorem recalls_of_none {memory : κ → List (κ × α)} {g : GameForm ι κ α}
    (h : ∀ J ∈ g.infosOf (· = i), ¬ K J) (past : List (κ × α)) : g.Recalls i K memory past := by
  induction g generalizing past with
  | leaf => trivial
  | decision owner info menu next ih =>
    have hnext : ∀ a ∈ menu.actions, ∀ J ∈ (next a).infosOf (· = i), ¬ K J :=
      fun a ha J hJ => h J (infosOf_next ha hJ)
    rw [Recalls]
    split
    case isTrue howner =>
      exact ⟨fun hK => absurd hK (h info (Or.inl ⟨rfl, howner⟩)), fun _ => hnext⟩
    case isFalse => exact fun a ha => ih a (hnext a ha) past

omit [DecidableEq κ] [DecidableEq α] in
/-- Without an info in `K` there is nothing to deviate from. -/
theorem deviate_eq_value {g : GameForm ι κ α} (h : ∀ J ∈ g.infosOf (· = i), ¬ K J) :
    g.deviate rule table i K plan = g.value rule table i := by
  induction g with
  | leaf => rfl
  | decision owner info menu next ih =>
    have hnot : ¬ (owner = i ∧ K info) := fun ⟨howner, hK⟩ => h info (Or.inl ⟨rfl, howner⟩) hK
    rw [deviate, value]
    simp only [if_neg hnot]
    apply congrArg List.sum
    apply List.map_congr_left
    intro a ha
    rw [ih a fun J hJ => h J (infosOf_next ha hJ)]

theorem regretOf_leaf (J : κ) (a : α) (utility : ι → ℚ) :
    (leaf utility : GameForm ι κ α).regretOf rule table i J a = 0 := rfl

/-- At a decision of the owner its regrets are added to those under the options. -/
theorem regretOf_own {info : κ} {menu : Menu α} {next : α → GameForm ι κ α} (J : κ) (a : α) :
    (decision i info menu next).regretOf rule table i J a =
      (if info = J then
        if a ∈ menu.actions then
          (next a).value rule table i - (decision i info menu next).value rule table i
        else 0
      else 0) + (menu.actions.map fun b => (next b).regretOf rule table i J a).sum := by
  rw [regretOf, gain, if_pos rfl]
  rfl

/-- At a decision of another owner the regrets under the options are averaged. -/
theorem regretOf_other {owner : ι} (howner : owner ≠ i) {info : κ} {menu : Menu α}
    {next : α → GameForm ι κ α} (J : κ) (a : α) :
    (decision owner info menu next).regretOf rule table i J a =
      (menu.actions.map fun b =>
        rule.weight (table info).regret menu b * (next b).regretOf rule table i J a).sum := by
  rw [regretOf, gain, if_neg howner]
  rfl

theorem regretOf_eq_zero {g : GameForm ι κ α} {J : κ} (h : J ∉ g.infosOf (· = i)) (a : α) :
    g.regretOf rule table i J a = 0 := gain_eq_zero h

variable [Fintype α] {S : Finset κ} {memory : κ → List (κ × α)}

/-- The gain from a plan is made up of the regrets along the plan. -/
theorem deviate_sub_value (hplan : IsPlan plan) (hS : ∀ J ∈ S, K J) {g : GameForm ι κ α}
    {past : List (κ × α)} (hrecall : g.Recalls i K memory past) (hpermits : g.Permits i K plan)
    (hcover : ∀ J ∈ g.infosOf (· = i), K J → J ∈ S) :
    planReach plan past * (g.deviate rule table i K plan - g.value rule table i) =
      alongPlan S memory plan fun J a => g.regretOf rule table i J a := by
  induction g generalizing past with
  | leaf utility =>
    simp only [regretOf_leaf]
    rw [alongPlan_zero, deviate, value, sub_self, mul_zero]
  | decision owner info menu next ih =>
    by_cases howner : owner = i
    · subst howner
      rw [Recalls, if_pos rfl] at hrecall
      by_cases hK : K info
      · -- the decision adds its own regrets to those under the options
        obtain ⟨hpast, hnext⟩ := hrecall.1 hK
        set worth := (decision owner info menu next).value rule table owner with hworth
        have hbelow : ∀ a ∈ menu.actions,
            planReach plan past * plan info a *
                ((next a).deviate rule table owner K plan - (next a).value rule table owner) =
              alongPlan S memory plan fun J b => (next a).regretOf rule table owner J b := by
          intro a ha
          rw [← planReach_append_singleton]
          exact ih a (hnext a ha) (hpermits.next ha) fun J hJ => hcover J (infosOf_next ha hJ)
        have hhere := alongPlan_menu memory hplan
          (hcover info (Or.inl ⟨rfl, rfl⟩) hK) (hpermits [] info menu next rfl hK)
          (fun a => (next a).value rule table owner) worth
        rw [hpast] at hhere
        simp only [regretOf_own]
        rw [alongPlan_add, alongPlan_sum, hhere, ← List.map_congr_left hbelow, deviate]
        simp only [true_and, if_pos hK, mul_assoc]
        rw [List.sum_map_mul_left]
        simp only [mul_sub]
        rw [sum_map_sub]
        ring
      · -- after this decision there is none to deviate at
        have hnone : ∀ J ∈ (decision owner info menu next).infosOf (· = owner), ¬ K J := by
          rintro J (⟨rfl, -⟩ | ⟨a, ha, hJ⟩)
          · exact hK
          · exact hrecall.2 hK a ha J hJ
        rw [deviate_eq_value hnone, sub_self, mul_zero]
        refine (alongPlan_zero.symm.trans (alongPlan_congr fun J hJ a => ?_))
        exact (regretOf_eq_zero (fun hmem => hnone J hmem (hS J hJ)) a).symm
    · rw [Recalls, if_neg howner] at hrecall
      have hbelow : ∀ a ∈ menu.actions,
          planReach plan past *
              ((next a).deviate rule table i K plan - (next a).value rule table i) =
            alongPlan S memory plan fun J b => (next a).regretOf rule table i J b :=
        fun a ha => ih a (hrecall a ha) (hpermits.next ha) fun J hJ =>
          hcover J (infosOf_next ha hJ)
      have hnot : ¬ (owner = i ∧ K info) := fun h => howner h.1
      simp only [regretOf_other howner]
      rw [alongPlan_sum]
      simp only [alongPlan_mul_left]
      rw [deviate, value, ← sum_map_sub, ← List.sum_map_mul_left]
      apply congrArg List.sum
      apply List.map_congr_left
      intro a ha
      rw [← hbelow a ha, if_neg hnot]
      ring

end GameForm

end VibePoker.Math
