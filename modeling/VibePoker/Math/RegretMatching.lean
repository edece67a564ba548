import Mathlib.Algebra.Order.BigOperators.Ring.Finset
import Mathlib.Tactic.Positivity
import VibePoker.Math.SamplingRounds

/-!
# Regret matching

A traversal credits a tally at most once. The mixture that it credits is that of the rule, and
the value from which the regrets are counted is what the mixture is worth.

When the rule mixes the options in proportion to their positive regrets, such a credit is
orthogonal to the positive regrets. The sum of their squares then grows by the squares of what
is credited only: over many rounds the regrets grow with the square root of their number.

## Main definitions

* `Tally.Credited` — one credit by the mixture of the rule
* `GameForm.Within` — payoffs within an interval
* `MixRule.Matches` — mixing in proportion to the positive regrets
* `potential` — the sum of the squares of the positive regrets
* `Tally.Bounded` — what holds of a tally after so many credits

## Main results

* `rounds_credited` — a round credits each tally at most once
* `Tally.Credited.potential_le` — what a credit adds to the potential
* `Tally.Bounded.credited` — the bounds after one more credit
-/

namespace VibePoker.Math

variable {ι κ α : Type} [DecidableEq ι] [DecidableEq κ] [DecidableEq α]

/-! ## Credits -/

/-- The tally after one credit: the options were worth `values` and their mixture by the rule is
worth `value`, from which no option is further than `spread`. -/
def Tally.Credited (rule : MixRule α) (spread : ℚ) (t t' : Tally α) : Prop :=
  ∃ (menu : Menu α) (values : α → ℚ) (value : ℚ),
    (menu.actions.map fun a => rule.weight t.regret menu a * values a).sum = value ∧
    (∀ a ∈ menu.actions, |values a - value| ≤ spread) ∧
    t' = { regret := fun a =>
             if a ∈ menu.actions then t.regret a + (values a - value) else t.regret a
           strategySum := fun a =>
             if a ∈ menu.actions then t.strategySum a + rule.weight t.regret menu a
             else t.strategySum a }

/-- The payoffs of the owner `i` are within an interval. -/
def GameForm.Within (i : ι) (low high : ℚ) : GameForm ι κ α → Prop
  | .leaf utility => low ≤ utility i ∧ utility i ≤ high
  | .decision _ _ menu next => ∀ a ∈ menu.actions, Within i low high (next a)

omit [DecidableEq α] in
/-- A mixture of values from an interval is in it. -/
theorem MixRule.mixture_mem (rule : MixRule α) (regret : α → ℚ) (menu : Menu α) {low high : ℚ}
    {values : α → ℚ} (h : ∀ a ∈ menu.actions, low ≤ values a ∧ values a ≤ high) :
    low ≤ (menu.actions.map fun a => rule.weight regret menu a * values a).sum ∧
      (menu.actions.map fun a => rule.weight regret menu a * values a).sum ≤ high := by
  have hconst : ∀ c : ℚ, (menu.actions.map fun a => rule.weight regret menu a * c).sum = c := by
    intro c
    rw [List.sum_map_mul_right, rule.total, one_mul]
  constructor
  · calc low = (menu.actions.map fun a => rule.weight regret menu a * low).sum := (hconst low).symm
      _ ≤ _ := List.sum_le_sum fun a ha =>
        mul_le_mul_of_nonneg_left (h a ha).1 (rule.nonneg regret menu a)
  · calc (menu.actions.map fun a => rule.weight regret menu a * values a).sum
        ≤ (menu.actions.map fun a => rule.weight regret menu a * high).sum :=
          List.sum_le_sum fun a ha =>
            mul_le_mul_of_nonneg_left (h a ha).2 (rule.nonneg regret menu a)
      _ = high := hconst high

section Sample

variable {rule : MixRule α} {i : ι} {low spread : ℚ}

/-- What an enumeration has found of the options that are not left. -/
structure Tried (menu : Menu α) (weight : α → ℚ) (low high : ℚ) (rest : List α)
    (values : α → ℚ) (value : ℚ) : Prop where
  split : ∃ tried, menu.actions = tried ++ rest ∧
    value = (tried.map fun a => weight a * values a).sum ∧
      ∀ a ∈ tried, low ≤ values a ∧ values a ≤ high

omit [DecidableEq ι] [DecidableEq κ] in
theorem Tried.step {menu : Menu α} {weight : α → ℚ} {high : ℚ} {a : α} {rest : List α}
    {values : α → ℚ} {value found : ℚ} (h : Tried menu weight low high (a :: rest) values value)
    (hfound : low ≤ found ∧ found ≤ high) :
    Tried menu weight low high rest (Function.update values a found)
      (value + weight a * found) := by
  obtain ⟨tried, hsplit, rfl, hwithin⟩ := h.split
  have hnot : a ∉ tried := by
    have hnodup := menu.nodup
    rw [hsplit] at hnodup
    exact fun hmem => (List.nodup_append.mp hnodup).2.2 a hmem a List.mem_cons_self rfl
  have hold : ∀ b ∈ tried, Function.update values a found b = values b :=
    fun b hb => Function.update_of_ne (fun heq : b = a => hnot (heq ▸ hb)) _ _
  refine ⟨tried ++ [a], by rw [hsplit, List.append_assoc, List.singleton_append], ?_, ?_⟩
  · rw [List.map_append, List.sum_append, List.map_singleton, List.sum_singleton,
      Function.update_self]
    exact congrArg (· + _) (congrArg List.sum (List.map_congr_left fun b hb => by rw [hold b hb]))
  · intro b hb
    rcases List.mem_append.mp hb with hb | hb
    · rw [hold b hb]
      exact hwithin b hb
    · rw [List.mem_singleton.mp hb, Function.update_self]
      exact hfound

/-- Each tally of the traverser is credited at most once, by the mixture that it gives, and no
other one is. -/
theorem sample_credited {g : GameForm ι κ α} (hsep : g.Separated)
    (hwithin : g.Within i low (low + spread)) (s : Ledger κ α) :
    (sample rule i g s).Surely fun r => (low ≤ r.2 ∧ r.2 ≤ low + spread) ∧
      ∀ J, r.1.tally J = s.tally J ∨
        J ∈ g.infosOf (· = i) ∧ (s.tally J).Credited rule spread (r.1.tally J) := by
  induction g generalizing s with
  | leaf => exact FinDist.surely_pure ⟨hwithin, fun J => Or.inl rfl⟩
  | decision owner info menu next ih =>
    obtain ⟨hinfo, hseparated, hdisjoint⟩ := hsep
    rw [sample]
    split
    case isTrue howner =>
      refine FinDist.Surely.bind (enumerate_surely (fun rest u values value =>
        Tried menu (rule.weight (s.tally info).regret menu) low (low + spread) rest values value ∧
          ∀ J, u.tally J = s.tally J ∨ (∃ b ∈ menu.actions, b ∉ rest ∧
            J ∈ (next b).infosOf (· = i)) ∧ (s.tally J).Credited rule spread (u.tally J))
        ?keep ?start) ?credit
      case keep =>
        rintro b rest u values value ⟨htried, hcredited⟩
        have hnodup : (b :: rest).Nodup ∧ ∀ c ∈ b :: rest, c ∈ menu.actions := by
          obtain ⟨tried, hsplit, -⟩ := htried.split
          have hmenu := menu.nodup
          rw [hsplit] at hmenu ⊢
          exact ⟨(List.nodup_append.mp hmenu).2.1, fun c hc => List.mem_append_right tried hc⟩
        have hb := hnodup.2 b List.mem_cons_self
        refine (ih b (hseparated b hb) (hwithin b hb) u).mono fun r hr => ⟨htried.step hr.1, ?_⟩
        intro J
        rcases hr.2 J with hsame | ⟨hJ, hr⟩
        · rw [hsame]
          refine (hcredited J).imp id fun h => ⟨?_, h.2⟩
          obtain ⟨c, hc, hleft, hJ⟩ := h.1
          exact ⟨c, hc, fun hmem => hleft (List.mem_cons_of_mem b hmem), hJ⟩
        · -- the option that was tried is the first to credit this tally
          have hsame : u.tally J = s.tally J := (hcredited J).resolve_right fun h => by
            obtain ⟨⟨c, hc, hleft, hJ'⟩, -⟩ := h
            exact Set.disjoint_left.mp (hdisjoint b hb c hc fun heq =>
              hleft (heq ▸ List.mem_cons_self)) (GameForm.infosOf_subset_infos _ _ hJ)
                (GameForm.infosOf_subset_infos _ _ hJ')
          rw [hsame] at hr
          exact Or.inr ⟨⟨b, hb, (List.nodup_cons.mp hnodup.1).1, hJ⟩, hr⟩
      case start =>
        exact ⟨⟨[], rfl, rfl, fun _ hb => absurd hb List.not_mem_nil⟩, fun J => Or.inl rfl⟩
      case credit =>
        rintro r ⟨htried, hcredited⟩
        obtain ⟨tried, hsplit, hvalue, hvalues⟩ := htried.split
        rw [List.append_nil] at hsplit
        subst hsplit
        have hmixture := rule.mixture_mem (s.tally info).regret menu hvalues
        rw [← hvalue] at hmixture
        refine FinDist.surely_pure ⟨hmixture, fun J => ?_⟩
        by_cases hJ : J = info
        · subst hJ
          have hsame : r.1.tally J = s.tally J := (hcredited J).resolve_right fun h => by
            obtain ⟨⟨b, hb, -, hmem⟩, -⟩ := h
            exact hinfo b hb (GameForm.infosOf_subset_infos _ _ hmem)
          refine Or.inr ⟨Or.inl ⟨rfl, howner⟩, menu, r.2.1, r.2.2, hvalue.symm, fun a ha => ?_, ?_⟩
          · have hoption := hvalues a ha
            rw [abs_le]
            constructor <;> linarith
          · rw [Ledger.credit_tally, hsame]
        · rw [Ledger.credit_of_ne _ hJ]
          refine (hcredited J).imp id fun h => ⟨?_, h.2⟩
          obtain ⟨b, hb, -, hJ⟩ := h.1
          exact Or.inr ⟨b, hb, hJ⟩
    case isFalse =>
      refine (rule.surely_draw _ menu).bind fun b hb =>
        (ih b (hseparated b hb) (hwithin b hb) _).mono fun r hr => ⟨hr.1, fun J => ?_⟩
      exact (hr.2 J).imp id fun h => ⟨GameForm.infosOf_next hb h.1, h.2⟩

/-- A round credits each tally at most once. -/
theorem rounds_credited {g : GameForm ι κ α} (hsep : g.Separated) {low : ι → ℚ}
    (hwithin : ∀ i, g.Within i (low i) (low i + spread)) {owners : List ι}
    (hnodup : owners.Nodup) (table : κ → Tally α) :
    (rounds rule g owners table).Surely fun table' =>
      ∀ J, table' J = table J ∨ (table J).Credited rule spread (table' J) := by
  refine (rounds_surely (fun rest table' => rest.Nodup ∧ ∀ J, table' J = table J ∨
    (∀ j ∈ rest, J ∉ g.infosOf (· = j)) ∧ (table J).Credited rule spread (table' J)) ?_
      ⟨hnodup, fun J => Or.inl rfl⟩).mono fun table' h J => (h.2 J).imp id And.right
  rintro i rest table' ⟨hnodup, hcredited⟩
  obtain ⟨hi, hrest⟩ := List.nodup_cons.mp hnodup
  refine (sample_credited hsep (hwithin i) ⟨table', [], []⟩).mono fun done hdone =>
    ⟨hrest, fun J => ?_⟩
  rcases hdone.2 J with hsame | ⟨hJ, hdone⟩
  · rw [hsame]
    exact (hcredited J).imp id fun h => ⟨fun j hj => h.1 j (List.mem_cons_of_mem i hj), h.2⟩
  · -- a tally has one owner, so that no other traversal credits it
    have hsame : table' J = table J :=
      (hcredited J).resolve_right fun h => h.1 i List.mem_cons_self hJ
    refine Or.inr ⟨fun j hj hJ' => hi ?_, hsame ▸ hdone⟩
    obtain ⟨line, owner, menu, next, hwalk, rfl⟩ := GameForm.exists_walk_of_mem hJ
    obtain ⟨line', owner', menu', next', hwalk', rfl⟩ := GameForm.exists_walk_of_mem hJ'
    obtain rfl := hsep.line_unique hwalk hwalk'
    rw [hwalk] at hwalk'
    rwa [(GameForm.decision.inj (Option.some.inj hwalk')).1]

end Sample

/-! ## The potential -/

section Potential

variable [Fintype α]

/-- The sum of the squares of the positive regrets. -/
def potential (regret : α → ℚ) : ℚ := ∑ a, max (regret a) 0 ^ 2

omit [DecidableEq α] [Fintype α] in
/-- Options are mixed in proportion to their positive regrets, if there are any. -/
def MixRule.Matches (rule : MixRule α) : Prop :=
  ∀ regret menu, ∀ a ∈ menu.actions, rule.weight regret menu a *
    (menu.actions.map fun b => max (regret b) 0).sum = max (regret a) 0

omit [DecidableEq α] [Fintype α] in
/-- What is credited is orthogonal to the positive regrets. -/
theorem MixRule.Matches.orthogonal {rule : MixRule α} (h : rule.Matches) (regret : α → ℚ)
    (menu : Menu α) (values : α → ℚ) :
    (menu.actions.map fun a => max (regret a) 0 *
      (values a - (menu.actions.map fun b => rule.weight regret menu b * values b).sum)).sum =
        0 := by
  set value := (menu.actions.map fun b => rule.weight regret menu b * values b).sum with hvalue
  set total := (menu.actions.map fun b => max (regret b) 0).sum with htotal
  calc (menu.actions.map fun a => max (regret a) 0 * (values a - value)).sum
      = (menu.actions.map fun a =>
          (rule.weight regret menu a * values a + rule.weight regret menu a * -value) *
            total).sum := by
        refine congrArg List.sum (List.map_congr_left fun a ha => ?_)
        rw [← h regret menu a ha, ← htotal]
        ring
    _ = 0 := by
        rw [List.sum_map_mul_right, List.sum_map_add, ← hvalue, List.sum_map_mul_right, rule.total,
          one_mul, add_neg_cancel, zero_mul]

theorem sq_max_add_le (x y : ℚ) : max (x + y) 0 ^ 2 ≤ max x 0 ^ 2 + 2 * (max x 0 * y) + y ^ 2 := by
  have hsquare : max x 0 ^ 2 + 2 * (max x 0 * y) + y ^ 2 = (max x 0 + y) ^ 2 := by ring
  rw [hsquare]
  rcases le_total (x + y) 0 with hneg | hpos
  · rw [max_eq_right hneg, zero_pow two_ne_zero]
    exact sq_nonneg _
  · rw [max_eq_left hpos]
    exact pow_le_pow_left₀ hpos (add_le_add_left (le_max_left x 0) y) 2

/-- A sum over the options on a menu. -/
theorem Menu.sum_univ_ite (menu : Menu α) (f : α → ℚ) :
    ∑ a, (if a ∈ menu.actions then f a else 0) = (menu.actions.map f).sum := by
  rw [← List.sum_toFinset f menu.nodup, ← Finset.sum_filter]
  refine Finset.sum_congr ?_ fun _ _ => rfl
  ext a
  simp

/-- A credit by regret matching adds to the potential at most the squares of what is credited. -/
theorem Tally.Credited.potential_le {rule : MixRule α} (hrule : rule.Matches) {spread : ℚ}
    {t t' : Tally α} (h : t.Credited rule spread t') :
    potential t'.regret ≤ potential t.regret + Fintype.card α * spread ^ 2 := by
  obtain ⟨menu, values, value, rfl, hspread, rfl⟩ := h
  set value := (menu.actions.map fun a => rule.weight t.regret menu a * values a).sum with hvalue
  let earned : α → ℚ := fun a => if a ∈ menu.actions then values a - value else 0
  have hregret : ∀ a, (if a ∈ menu.actions then t.regret a + (values a - value) else t.regret a) =
      t.regret a + earned a := by
    intro a
    by_cases ha : a ∈ menu.actions <;> simp [earned, ha]
  have hcross : ∑ a, max (t.regret a) 0 * earned a = 0 := by
    simp only [earned, mul_ite, mul_zero]
    rw [menu.sum_univ_ite, hrule.orthogonal t.regret menu values]
  have hsquare : ∀ a, earned a ^ 2 ≤ spread ^ 2 := by
    intro a
    by_cases ha : a ∈ menu.actions
    · simp only [earned, if_pos ha]
      exact sq_le_sq' (neg_le_of_abs_le (hspread a ha)) (le_of_abs_le (hspread a ha))
    · simp only [earned, if_neg ha, zero_pow two_ne_zero]
      exact sq_nonneg spread
  have hsquares : ∑ a, earned a ^ 2 ≤ Fintype.card α * spread ^ 2 := by
    refine (Finset.sum_le_card_nsmul Finset.univ _ (spread ^ 2) fun a _ => hsquare a).trans_eq ?_
    rw [Finset.card_univ, nsmul_eq_mul]
  calc potential _ = ∑ a, max (t.regret a + earned a) 0 ^ 2 :=
        Finset.sum_congr rfl fun a _ => congrArg (fun r => max r 0 ^ 2) (hregret a)
    _ ≤ ∑ a, (max (t.regret a) 0 ^ 2 + 2 * (max (t.regret a) 0 * earned a) + earned a ^ 2) :=
        Finset.sum_le_sum fun a _ => sq_max_add_le _ _
    _ = potential t.regret + 2 * ∑ a, max (t.regret a) 0 * earned a + ∑ a, earned a ^ 2 := by
        rw [Finset.sum_add_distrib, Finset.sum_add_distrib, ← Finset.mul_sum, potential]
    _ ≤ potential t.regret + Fintype.card α * spread ^ 2 := by
        rw [hcross, mul_zero, add_zero]
        exact add_le_add_right hsquares _

/-! ## Tallies that were only credited -/

/-- The strategy sums of the options add up to the number of credits. -/
theorem Tally.Credited.total {rule : MixRule α} {spread : ℚ} {t t' : Tally α}
    (h : t.Credited rule spread t') : ∑ a, t'.strategySum a = ∑ a, t.strategySum a + 1 := by
  obtain ⟨menu, -, -, -, -, rfl⟩ := h
  have hadded : ∀ a, (if a ∈ menu.actions then t.strategySum a + rule.weight t.regret menu a
      else t.strategySum a) =
      t.strategySum a + if a ∈ menu.actions then rule.weight t.regret menu a else 0 := by
    intro a
    by_cases ha : a ∈ menu.actions <;> simp [ha]
  simp only [hadded]
  rw [Finset.sum_add_distrib, menu.sum_univ_ite, rule.total]

omit [Fintype α] in
theorem Tally.Credited.strategySum_le {rule : MixRule α} {spread : ℚ} {t t' : Tally α}
    (h : t.Credited rule spread t') (a : α) : t.strategySum a ≤ t'.strategySum a := by
  obtain ⟨menu, -, -, -, -, rfl⟩ := h
  dsimp only
  split
  · exact le_add_of_nonneg_right (rule.nonneg _ _ _)
  · exact le_rfl

/-- What holds of a tally after at most so many credits, each of which costs so much. -/
structure Tally.Bounded (cost : ℚ) (credits : ℕ) (t : Tally α) : Prop where
  potential_le : potential t.regret ≤ cost * ∑ a, t.strategySum a
  total_le : ∑ a, t.strategySum a ≤ credits
  nonneg : ∀ a, 0 ≤ t.strategySum a

omit [DecidableEq α] in
theorem Tally.Bounded.mono {cost : ℚ} {credits credits' : ℕ} {t : Tally α}
    (h : t.Bounded cost credits) (hle : credits ≤ credits') : t.Bounded cost credits' :=
  ⟨h.potential_le, h.total_le.trans (Nat.cast_le.mpr hle), h.nonneg⟩

theorem Tally.Bounded.credited {rule : MixRule α} (hrule : rule.Matches) {spread : ℚ}
    {credits : ℕ} {t t' : Tally α} (h : t.Bounded (Fintype.card α * spread ^ 2) credits)
    (hcredited : t.Credited rule spread t') :
    t'.Bounded (Fintype.card α * spread ^ 2) (credits + 1) := by
  refine ⟨?_, ?_, fun a => (h.nonneg a).trans (hcredited.strategySum_le a)⟩
  · calc potential t'.regret ≤ potential t.regret + Fintype.card α * spread ^ 2 :=
          hcredited.potential_le hrule
      _ ≤ Fintype.card α * spread ^ 2 * ∑ a, t'.strategySum a := by
          rw [hcredited.total, mul_add, mul_one]
          exact add_le_add_left h.potential_le _
  · rw [hcredited.total, Nat.cast_succ]
    exact add_le_add_left h.total_le 1

end Potential

end VibePoker.Math
