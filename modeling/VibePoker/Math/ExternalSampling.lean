import Mathlib.Order.CompletePartialOrder
import Mathlib.Tactic.Ring
import VibePoker.Math.GameForm

/-!
# External sampling

A traversal of a game form for one owner, the traverser. At the traverser's decisions all
options are tried, one after the other, and the tally of the decision is credited with the
regrets and with the mixture that the rule gave. At the other decisions one option is drawn.

The traversal reads the tallies that it writes. In a form whose infos name one decision each it
never reads what it wrote, so that it follows the tallies that it started from. The traverser's
decisions are visited with the probability that the others leave them: the traverser's own
mixture does not enter.

## Main definitions

* `enumerate` — trying options one after the other
* `Ledger` — tallies with a record of the mixtures used and the infos credited
* `sample` — the traversal
* `gain` — what a traversal adds to a tally on average

## Main results

* `sample_credits` — each info of the traverser is credited at most once, and no other one is
* `sample_uses` — the mixtures are those of the tallies that the traversal started from
* `expect_sample_value` — the value of a traversal on average
* `expect_sample_strategySum`, `expect_sample_regret` — the tallies after it on average
* `gain_of_walk` — a decision gains in proportion to the others' reach
-/

namespace VibePoker.Math

/-! ## Trying options one after the other -/

/-- Try the listed options, each from the state that the last one left. Returns the state, the
value of each option and the value of their mixture. -/
def enumerate {m : Type → Type} [Monad m] {S α : Type} [DecidableEq α]
    (go : S → α → m (S × ℚ)) (weight : α → ℚ) :
    List α → S → (α → ℚ) → ℚ → m (S × (α → ℚ) × ℚ)
  | [], s, values, value => pure (s, values, value)
  | a :: rest, s, values, value => do
    let tried ← go s a
    enumerate go weight rest tried.1 (Function.update values a tried.2)
      (value + weight a * tried.2)

section Enumerate

variable {S α : Type} [DecidableEq α] {go : S → α → FinDist (S × ℚ)} {weight : α → ℚ}

/-- What each option keeps, for the options that are left, holds in the end. -/
theorem enumerate_surely (Inv : List α → S → (α → ℚ) → ℚ → Prop)
    (hkeep : ∀ a rest s values value, Inv (a :: rest) s values value →
      (go s a).Surely fun r => Inv rest r.1 (Function.update values a r.2)
        (value + weight a * r.2))
    {options : List α} {s : S} {values : α → ℚ} {value : ℚ} (h : Inv options s values value) :
    (enumerate go weight options s values value).Surely fun r => Inv [] r.1 r.2.1 r.2.2 := by
  induction options generalizing s values value with
  | nil => exact FinDist.surely_pure h
  | cons a rest ih => exact (hkeep a rest s values value h).bind fun r hr => ih hr

/-- Trying options whose programs do not fail. -/
theorem yields_enumerate {S' : Type} (view : S → S') {go : S → α → OptionT FinDist (S × ℚ)}
    {go' : S' → α → FinDist (S' × ℚ)} {options : List α}
    (h : ∀ a ∈ options, ∀ s, FinDist.Yields (Prod.map view id) (go s a) (go' (view s) a))
    (s : S) (values : α → ℚ) (value : ℚ) :
    FinDist.Yields (Prod.map view id) (enumerate go weight options s values value)
      (enumerate go' weight options (view s) values value) := by
  induction options generalizing s values value with
  | nil => exact FinDist.Yields.pure _
  | cons a rest ih =>
    refine (h a List.mem_cons_self s).bind fun r => ?_
    exact ih (fun b hb => h b (List.mem_cons_of_mem a hb)) r.1 _ _

variable (Inv : List α → S → Prop)
  (hkeep : ∀ a rest s, Inv (a :: rest) s → (go s a).Surely fun r => Inv rest r.1)
include hkeep

/-- Expected gains of the options add up, as long as each option leaves the gains of the
others as they are. -/
theorem expect_enumerate (f : S → ℚ) (gain : α → ℚ)
    (hgain : ∀ a rest s, Inv (a :: rest) s → (go s a).expect (fun r => f r.1) = f s + gain a)
    {options : List α} {s : S} (h : Inv options s) (values : α → ℚ) (value : ℚ) :
    (enumerate go weight options s values value).expect (fun r => f r.1) =
      f s + (options.map gain).sum := by
  induction options generalizing s values value with
  | nil => rw [enumerate, FinDist.expect_pure, List.map_nil, List.sum_nil, add_zero]
  | cons a rest ih =>
    rw [enumerate, FinDist.expect_bind]
    calc (go s a).expect (fun r => (enumerate go weight rest r.1 (Function.update values a r.2)
          (value + weight a * r.2)).expect fun r => f r.1)
        = (go s a).expect (fun r => f r.1 + (rest.map gain).sum) :=
          FinDist.expect_congr ((hkeep a rest s h).mono fun r hr => ih hr _ _)
      _ = f s + gain a + (rest.map gain).sum := by
          rw [FinDist.expect_add, hgain a rest s h, FinDist.expect_const]
      _ = f s + ((a :: rest).map gain).sum := by rw [List.map_cons, List.sum_cons, add_assoc]

variable (worth : α → ℚ)
  (hworth : ∀ a rest s, Inv (a :: rest) s → (go s a).expect (fun r => r.2) = worth a)
include hworth

/-- The mixture of the options is worth what they are worth. -/
theorem expect_enumerate_value {options : List α} {s : S} (h : Inv options s) (values : α → ℚ)
    (value : ℚ) :
    (enumerate go weight options s values value).expect (fun r => r.2.2) =
      value + (options.map fun a => weight a * worth a).sum := by
  induction options generalizing s values value with
  | nil => rw [enumerate, FinDist.expect_pure, List.map_nil, List.sum_nil, add_zero]
  | cons a rest ih =>
    rw [enumerate, FinDist.expect_bind]
    calc (go s a).expect (fun r => (enumerate go weight rest r.1 (Function.update values a r.2)
          (value + weight a * r.2)).expect fun r => r.2.2)
        = (go s a).expect (fun r =>
            r.2 * weight a + (value + (rest.map fun b => weight b * worth b).sum)) := by
          refine FinDist.expect_congr ((hkeep a rest s h).mono fun r hr => ?_)
          rw [ih hr]
          ring
      _ = value + ((a :: rest).map fun b => weight b * worth b).sum := by
          rw [FinDist.expect_add, FinDist.expect_mul_right, hworth a rest s h, FinDist.expect_const,
            List.map_cons, List.sum_cons]
          ring

/-- So is each option. -/
theorem expect_enumerate_values {options : List α} (hnodup : options.Nodup) {s : S}
    (h : Inv options s) (values : α → ℚ) (value : ℚ) (b : α) :
    (enumerate go weight options s values value).expect (fun r => r.2.1 b) =
      if b ∈ options then worth b else values b := by
  induction options generalizing s values value with
  | nil => rw [enumerate, FinDist.expect_pure, if_neg List.not_mem_nil]
  | cons a rest ih =>
    obtain ⟨ha, hrest⟩ := List.nodup_cons.mp hnodup
    rw [enumerate, FinDist.expect_bind]
    have hlater : (go s a).expect (fun r => (enumerate go weight rest r.1
        (Function.update values a r.2) (value + weight a * r.2)).expect fun r => r.2.1 b) =
        (go s a).expect fun r =>
          if b ∈ rest then worth b else Function.update values a r.2 b :=
      FinDist.expect_congr ((hkeep a rest s h).mono fun r hr => ih hrest hr _ _)
    rw [hlater]
    by_cases hb : b = a
    · subst hb
      simp only [if_neg ha, Function.update_self, List.mem_cons, true_or, if_true]
      exact hworth b rest s h
    · simp only [Function.update_of_ne hb, FinDist.expect_const, List.mem_cons, hb, false_or]

end Enumerate

/-! ## The traversal -/

/-- Tallies, and beside them what was done so far, the last first: the mixtures that were used,
each with its info and its options, and the infos whose tallies were credited. -/
structure Ledger (κ α : Type) where
  tally : κ → Tally α
  used : List (κ × List α × (α → ℚ))
  credited : List κ

namespace Ledger

variable {κ α : Type}

def use (s : Ledger κ α) (info : κ) (options : List α) (weight : α → ℚ) : Ledger κ α :=
  { s with used := (info, options, weight) :: s.used }

/-- Credit a decision with the regrets of its options and with the mixture used. -/
def credit [DecidableEq κ] [DecidableEq α] (s : Ledger κ α) (info : κ) (menu : Menu α)
    (weight values : α → ℚ) (value : ℚ) : Ledger κ α :=
  { s with
    tally := Function.update s.tally info
      { regret := fun a =>
          if a ∈ menu.actions then (s.tally info).regret a + (values a - value)
          else (s.tally info).regret a
        strategySum := fun a =>
          if a ∈ menu.actions then (s.tally info).strategySum a + weight a
          else (s.tally info).strategySum a }
    credited := info :: s.credited }

@[simp] theorem use_tally (s : Ledger κ α) (info : κ) (options : List α) (weight : α → ℚ) :
    (s.use info options weight).tally = s.tally := rfl

@[simp] theorem use_credited (s : Ledger κ α) (info : κ) (options : List α) (weight : α → ℚ) :
    (s.use info options weight).credited = s.credited := rfl

variable [DecidableEq κ] [DecidableEq α]

@[simp] theorem credit_credited (s : Ledger κ α) (info : κ) (menu : Menu α)
    (weight values : α → ℚ) (value : ℚ) :
    (s.credit info menu weight values value).credited = info :: s.credited := rfl

@[simp] theorem credit_used (s : Ledger κ α) (info : κ) (menu : Menu α)
    (weight values : α → ℚ) (value : ℚ) :
    (s.credit info menu weight values value).used = s.used := rfl

theorem credit_of_ne (s : Ledger κ α) {info J : κ} (h : J ≠ info) (menu : Menu α)
    (weight values : α → ℚ) (value : ℚ) :
    (s.credit info menu weight values value).tally J = s.tally J := Function.update_of_ne h _ _

theorem credit_tally (s : Ledger κ α) (info : κ) (menu : Menu α) (weight values : α → ℚ)
    (value : ℚ) : (s.credit info menu weight values value).tally info =
      { regret := fun a =>
          if a ∈ menu.actions then (s.tally info).regret a + (values a - value)
          else (s.tally info).regret a
        strategySum := fun a =>
          if a ∈ menu.actions then (s.tally info).strategySum a + weight a
          else (s.tally info).strategySum a } := Function.update_self ..

/-- A mixture gives nothing to the options off the menu. -/
theorem credit_strategySum (s : Ledger κ α) (info : κ) {menu : Menu α} {weight : α → ℚ}
    (hoff : ∀ a, a ∉ menu.actions → weight a = 0) (values : α → ℚ) (value : ℚ) (a : α) :
    ((s.credit info menu weight values value).tally info).strategySum a =
      (s.tally info).strategySum a + weight a := by
  rw [credit_tally]
  dsimp only
  split
  case isTrue => rfl
  case isFalse ha => rw [hoff a ha, add_zero]

/-! ### What was done in between -/

/-- From one ledger to the other, each of the infos in `mine` was credited at most once, and the
tallies of those that were not are the same. -/
def Credits (mine : Set κ) (s r : Ledger κ α) : Prop :=
  ∃ new : List κ, r.credited = new ++ s.credited ∧ new.Nodup ∧ (∀ J ∈ new, J ∈ mine) ∧
    ∀ J ∉ new, r.tally J = s.tally J

variable {mine mine' : Set κ} {s u r : Ledger κ α}

omit [DecidableEq κ] [DecidableEq α] in
theorem Credits.kept (h : Credits mine s r) {J : κ} (hJ : J ∉ mine) : r.tally J = s.tally J := by
  obtain ⟨new, -, -, hmine, hkept⟩ := h
  exact hkept J fun hmem => hJ (hmine J hmem)

omit [DecidableEq κ] [DecidableEq α] in
theorem Credits.mono (h : Credits mine s r) (hle : mine ⊆ mine') : Credits mine' s r := by
  obtain ⟨new, hcredited, hnodup, hmine, hkept⟩ := h
  exact ⟨new, hcredited, hnodup, fun J hJ => hle (hmine J hJ), hkept⟩

omit [DecidableEq κ] [DecidableEq α] in
theorem Credits.of_tally (hcredited : r.credited = s.credited) (htally : r.tally = s.tally) :
    Credits mine s r :=
  ⟨[], hcredited, List.nodup_nil, fun _ hJ => absurd hJ List.not_mem_nil,
    fun J _ => congrFun htally J⟩

omit [DecidableEq κ] [DecidableEq α] in
theorem Credits.trans (h : Credits mine s u) (h' : Credits mine' u r)
    (hdisjoint : Disjoint mine mine') : Credits (mine ∪ mine') s r := by
  obtain ⟨new, hcredited, hnodup, hmine, hkept⟩ := h
  obtain ⟨new', hcredited', hnodup', hmine', hkept'⟩ := h'
  refine ⟨new' ++ new, by rw [hcredited', hcredited, List.append_assoc], ?_, ?_, ?_⟩
  · refine List.nodup_append.mpr ⟨hnodup', hnodup, fun J hJ K hK heq => ?_⟩
    exact Set.disjoint_left.mp hdisjoint (hmine K hK) (heq ▸ hmine' J hJ)
  · intro J hJ
    exact (List.mem_append.mp hJ).elim (fun hnew => Or.inr (hmine' J hnew))
      fun hnew => Or.inl (hmine J hnew)
  · intro J hJ
    rw [List.mem_append, not_or] at hJ
    rw [hkept' J hJ.1, hkept J hJ.2]

theorem Credits.credit (h : Credits mine s r) {info : κ} (hinfo : info ∉ mine) (menu : Menu α)
    (weight values : α → ℚ) (value : ℚ) :
    Credits (insert info mine) s (r.credit info menu weight values value) := by
  obtain ⟨new, hcredited, hnodup, hmine, hkept⟩ := h
  refine ⟨info :: new, by rw [credit_credited, hcredited, List.cons_append], ?_, ?_, ?_⟩
  · exact List.nodup_cons.mpr ⟨fun hmem => hinfo (hmine info hmem), hnodup⟩
  · intro J hJ
    exact (List.mem_cons.mp hJ).imp id (hmine J)
  · intro J hJ
    rw [List.mem_cons, not_or] at hJ
    rw [credit_of_ne r hJ.1, hkept J hJ.2]

end Ledger

section Sample

variable {ι κ α : Type} [DecidableEq ι] [DecidableEq κ] [DecidableEq α]

/-- The traversal for the owner `i`: the ledger it leaves and the value it returns. -/
def sample (rule : MixRule α) (i : ι) :
    GameForm ι κ α → Ledger κ α → FinDist (Ledger κ α × ℚ)
  | .leaf utility, s => pure (s, utility i)
  | .decision owner info menu next, s =>
    let weight := rule.weight (s.tally info).regret menu
    let s' := s.use info menu.actions weight
    if owner = i then do
      let tried ← enumerate (fun s a => sample rule i (next a) s) weight menu.actions s'
        (fun _ => 0) 0
      pure (tried.1.credit info menu weight tried.2.1 tried.2.2, tried.2.2)
    else do
      let a ← rule.draw (s.tally info).regret menu
      sample rule i (next a) s'

variable {rule : MixRule α} {i : ι}

/-- Each info of the traverser is credited at most once, and no other one is. -/
theorem sample_credits {g : GameForm ι κ α} (hsep : g.Separated) (s : Ledger κ α) :
    (sample rule i g s).Surely fun r => Ledger.Credits (g.infosOf (· = i)) s r.1 := by
  induction g generalizing s with
  | leaf => exact FinDist.surely_pure (.of_tally rfl rfl)
  | decision owner info menu next ih =>
    obtain ⟨hinfo, hseparated, hdisjoint⟩ := hsep
    rw [sample]
    split
    case isTrue howner =>
      -- the infos under the options that were tried
      refine FinDist.Surely.bind (enumerate_surely (fun rest u _ _ => rest.Nodup ∧
        (∀ b ∈ rest, b ∈ menu.actions) ∧
          Ledger.Credits {J | ∃ b ∈ menu.actions, b ∉ rest ∧ J ∈ (next b).infosOf (· = i)} s u)
        ?keep ?start) ?credit
      case keep =>
        rintro b rest u - - ⟨hnodup, hmenu, hcredits⟩
        obtain ⟨hb, hrest⟩ := List.nodup_cons.mp hnodup
        have hbmenu := hmenu b List.mem_cons_self
        refine (ih b (hseparated b hbmenu) u).mono fun r hr =>
          ⟨hrest, fun c hc => hmenu c (List.mem_cons_of_mem b hc), ?_⟩
        refine (hcredits.trans hr ?_).mono ?_
        · refine Set.disjoint_left.mpr fun J ⟨c, hc, hcnot, hJ⟩ hJ' => ?_
          have hne : c ≠ b := fun heq => hcnot (heq ▸ List.mem_cons_self)
          exact Set.disjoint_left.mp (hdisjoint c hc b hbmenu hne)
            (GameForm.infosOf_subset_infos _ _ hJ) (GameForm.infosOf_subset_infos _ _ hJ')
        · rintro J (⟨c, hc, hcnot, hJ⟩ | hJ)
          · exact ⟨c, hc, fun hmem => hcnot (List.mem_cons_of_mem b hmem), hJ⟩
          · exact ⟨b, hbmenu, hb, hJ⟩
      case start => exact ⟨menu.nodup, fun _ hb => hb, .of_tally rfl rfl⟩
      case credit =>
        rintro r ⟨-, -, hcredits⟩
        refine FinDist.surely_pure ((hcredits.credit ?_ menu _ _ _).mono ?_)
        · rintro ⟨b, hb, -, hJ⟩
          exact hinfo b hb (GameForm.infosOf_subset_infos _ _ hJ)
        · rintro J (rfl | ⟨b, hb, -, hJ⟩)
          · exact Or.inl ⟨rfl, howner⟩
          · exact Or.inr ⟨b, hb, hJ⟩
    case isFalse =>
      refine (rule.surely_draw _ menu).bind fun b hb => (ih b (hseparated b hb) _).mono fun r hr => ?_
      exact hr.mono (GameForm.infosOf_next hb)

/-- The options of a decision that are left, with the tallies under them as in `table`. -/
structure Fresh (table : κ → Tally α) (menu : Menu α) (next : α → GameForm ι κ α)
    (rest : List α) (s : Ledger κ α) : Prop where
  nodup : rest.Nodup
  offered : ∀ b ∈ rest, b ∈ menu.actions
  tally_eq : ∀ b ∈ rest, ∀ K ∈ (next b).infos, s.tally K = table K

/-- An option leaves the tallies under the other options as they are. -/
theorem Fresh.step {table : κ → Tally α} {owner : ι} {info : κ} {menu : Menu α}
    {next : α → GameForm ι κ α} (hsep : (GameForm.decision owner info menu next).Separated)
    (b : α) (rest : List α) (s : Ledger κ α) (h : Fresh table menu next (b :: rest) s) :
    (sample rule i (next b) s).Surely fun r => Fresh table menu next rest r.1 := by
  obtain ⟨-, hseparated, hdisjoint⟩ := hsep
  obtain ⟨hb, hrest⟩ := List.nodup_cons.mp h.nodup
  have hbmenu := h.offered b List.mem_cons_self
  refine (sample_credits (hseparated b hbmenu) s).mono fun r hr => ⟨hrest, fun c hc =>
    h.offered c (List.mem_cons_of_mem b hc), fun c hc K hK => ?_⟩
  have hapart := hdisjoint c (h.offered c (List.mem_cons_of_mem b hc)) b hbmenu
    fun heq => hb (heq ▸ hc)
  rw [hr.kept fun hmem => Set.disjoint_left.mp hapart hK
    (GameForm.infosOf_subset_infos _ _ hmem)]
  exact h.tally_eq c (List.mem_cons_of_mem b hc) K hK

/-- A use of the mixture that the rule gives by the tallies of `table`. -/
def Uses (rule : MixRule α) (table : κ → Tally α) (entry : κ × List α × (α → ℚ)) : Prop :=
  ∃ menu : Menu α, entry.2.1 = menu.actions ∧
    entry.2.2 = rule.weight (table entry.1).regret menu

/-- The mixtures are those of the tallies that the traversal started from. -/
theorem sample_uses {table : κ → Tally α} {g : GameForm ι κ α} (hsep : g.Separated)
    {s : Ledger κ α} (hs : ∀ K ∈ g.infos, s.tally K = table K)
    (hused : ∀ entry ∈ s.used, Uses rule table entry) :
    (sample rule i g s).Surely fun r => ∀ entry ∈ r.1.used, Uses rule table entry := by
  induction g generalizing s with
  | leaf => exact FinDist.surely_pure hused
  | decision owner info menu next ih =>
    have hseparated := hsep.2.1
    have hinfo : s.tally info = table info := hs info (Or.inl ⟨rfl, trivial⟩)
    -- the strategy in use at this information set is still the one of the table
    have huse : ∀ entry ∈ (s.use info menu.actions (rule.weight (s.tally info).regret menu)).used,
        Uses rule table entry := by
      intro entry hentry
      rcases List.mem_cons.mp hentry with rfl | hentry
      · exact ⟨menu, rfl, by rw [hinfo]⟩
      · exact hused entry hentry
    rw [sample]
    split
    case isTrue =>
      refine FinDist.Surely.bind (enumerate_surely (fun rest u _ _ => Fresh table menu next rest u ∧
        ∀ entry ∈ u.used, Uses rule table entry) ?keep ?start) ?credit
      case keep =>
        rintro b rest u - - ⟨hfresh, hu⟩
        exact (Fresh.step hsep b rest u hfresh).and
          (ih b (hseparated b (hfresh.offered b List.mem_cons_self))
            (hfresh.tally_eq b List.mem_cons_self) hu)
      case start =>
        exact ⟨⟨menu.nodup, fun _ hb => hb, fun b hb K hK => hs K (GameForm.infosOf_next hb hK)⟩,
          huse⟩
      case credit =>
        rintro r ⟨-, hr⟩
        exact FinDist.surely_pure hr
    case isFalse =>
      exact (rule.surely_draw _ menu).bind fun b hb => ih b (hseparated b hb)
        (fun K hK => hs K (GameForm.infosOf_next hb hK)) huse

/-! ## What a traversal does on average -/

/-- The value that a traversal returns on average. -/
theorem expect_sample_value {table : κ → Tally α} {g : GameForm ι κ α} (hsep : g.Separated)
    {s : Ledger κ α} (hs : ∀ K ∈ g.infos, s.tally K = table K) :
    (sample rule i g s).expect (fun r => r.2) = g.value rule table i := by
  induction g generalizing s with
  | leaf => rw [sample, FinDist.expect_pure, GameForm.value]
  | decision owner info menu next ih =>
    have hseparated := hsep.2.1
    have hinfo : s.tally info = table info := hs info (Or.inl ⟨rfl, trivial⟩)
    rw [sample, GameForm.value]
    split
    case isTrue =>
      rw [FinDist.expect_bind]
      simp only [FinDist.expect_pure]
      rw [expect_enumerate_value (Fresh table menu next) (Fresh.step hsep)
        (fun b => (next b).value rule table i) ?worth ?start, zero_add, hinfo]
      case worth =>
        intro b rest u hfresh
        exact ih b (hseparated b (hfresh.offered b List.mem_cons_self))
          (hfresh.tally_eq b List.mem_cons_self)
      case start =>
        exact ⟨menu.nodup, fun _ hb => hb, fun b hb K hK => hs K (GameForm.infosOf_next hb hK)⟩
    case isFalse =>
      rw [FinDist.expect_bind, rule.expect_draw, hinfo]
      refine congrArg List.sum (List.map_congr_left fun b hb => ?_)
      refine congrArg (_ * ·) (ih b (hseparated b hb) fun K hK => ?_)
      exact hs K (GameForm.infosOf_next hb hK)

/-- What a traversal adds on average to a quantity kept under the info `J`, when a visit to a
decision of the traverser adds `amount` to it on average. -/
def gain (rule : MixRule α) (table : κ → Tally α) (i : ι) (J : κ)
    (amount : κ → Menu α → (α → GameForm ι κ α) → ℚ) : GameForm ι κ α → ℚ
  | .leaf _ => 0
  | .decision owner info menu next =>
    if owner = i then
      (if info = J then amount info menu next else 0) +
        (menu.actions.map fun b => gain rule table i J amount (next b)).sum
    else
      (menu.actions.map fun b =>
        rule.weight (table info).regret menu b * gain rule table i J amount (next b)).sum

section Gain

variable {table : κ → Tally α} {amount : κ → Menu α → (α → GameForm ι κ α) → ℚ}

omit [DecidableEq α] in
/-- Under an info that is not the traverser's nothing is added. -/
theorem gain_eq_zero {J : κ} {g : GameForm ι κ α} (h : J ∉ g.infosOf (· = i)) :
    gain rule table i J amount g = 0 := by
  induction g with
  | leaf => rfl
  | decision owner info menu next ih =>
    have hnext : ∀ b ∈ menu.actions, gain rule table i J amount (next b) = 0 := fun b hb =>
      ih b fun hmem => h (GameForm.infosOf_next hb hmem)
    rw [gain]
    split
    case isTrue howner =>
      rw [if_neg fun heq => h (Or.inl ⟨heq.symm, howner⟩), zero_add]
      exact List.sum_eq_zero (List.forall_mem_map.mpr hnext)
    case isFalse =>
      exact List.sum_eq_zero (List.forall_mem_map.mpr fun b hb => by rw [hnext b hb, mul_zero])

/-- A decision of the traverser gains in proportion to the others' reach of it. -/
theorem gain_of_walk {line : List α} {g : GameForm ι κ α} (hsep : g.Separated) {J : κ}
    {menu : Menu α} {next : α → GameForm ι κ α}
    (hwalk : GameForm.walk line g = some (.decision i J menu next)) :
    gain rule table i J amount g =
      GameForm.reach rule table (· ≠ i) line g * amount J menu next := by
  induction line generalizing g with
  | nil =>
    obtain rfl := Option.some.inj hwalk
    have hzero : ∀ b ∈ menu.actions, gain rule table i J amount (next b) = 0 := fun b hb =>
      gain_eq_zero fun hmem => hsep.1 b hb (GameForm.infosOf_subset_infos _ _ hmem)
    rw [gain, if_pos rfl, if_pos rfl, List.sum_eq_zero (List.forall_mem_map.mpr hzero), add_zero,
      GameForm.reach, one_mul]
  | cons b line ih =>
    obtain ⟨owner, info, menu', next', rfl, hb, hwalk⟩ :=
      GameForm.walk_cons_eq_some_iff.mp hwalk
    obtain ⟨hinfo, hseparated, hdisjoint⟩ := hsep
    have hJ : J ∈ (next' b).infos := GameForm.info_mem_of_walk hwalk trivial
    -- the decision is under the option `b` only
    have helse : ∀ c ∈ menu'.actions, c ≠ b → gain rule table i J amount (next' c) = 0 :=
      fun c hc hne => gain_eq_zero fun hmem => Set.disjoint_left.mp
        (hdisjoint c hc b hb hne) (GameForm.infosOf_subset_infos _ _ hmem) hJ
    rw [gain, GameForm.reach]
    by_cases howner : owner = i
    · rw [if_pos howner, if_neg fun hsame : info = J => hinfo b hb (hsame ▸ hJ), zero_add,
        menu'.sum_eq_single hb helse, ih (hseparated b hb) hwalk, if_neg (not_not.mpr howner),
        one_mul]
    · rw [if_neg howner, menu'.sum_eq_single hb fun c hc hne => by rw [helse c hc hne, mul_zero],
        ih (hseparated b hb) hwalk, if_pos howner, mul_assoc]

/-- A quantity that only grows when its info is credited. -/
theorem expect_sample_of_credit (f : Tally α → ℚ)
    (earned : Menu α → (α → ℚ) → (α → ℚ) → ℚ → ℚ)
    (hcredit : ∀ (s : Ledger κ α) info menu regret values value,
      f ((s.credit info menu (rule.weight regret menu) values value).tally info) =
        f (s.tally info) + earned menu (rule.weight regret menu) values value)
    (hamount : ∀ info menu next (d : FinDist (Ledger κ α × (α → ℚ) × ℚ)),
      (∀ b ∈ menu.actions, d.expect (fun r => r.2.1 b) = (next b).value rule table i) →
      d.expect (fun r => r.2.2) =
        (GameForm.decision i info menu next).value rule table i →
      d.expect (fun r => earned menu (rule.weight (table info).regret menu) r.2.1 r.2.2) =
        amount info menu next)
    {g : GameForm ι κ α} (hsep : g.Separated) {s : Ledger κ α}
    (hs : ∀ K ∈ g.infos, s.tally K = table K) (J : κ) :
    (sample rule i g s).expect (fun r => f (r.1.tally J)) =
      f (s.tally J) + gain rule table i J amount g := by
  induction g generalizing s with
  | leaf => rw [sample, FinDist.expect_pure, gain, add_zero]
  | decision owner info menu next ih =>
    have hseparated := hsep.2.1
    have hinfo : s.tally info = table info := hs info (Or.inl ⟨rfl, trivial⟩)
    have hfresh : Fresh table menu next menu.actions
        (s.use info menu.actions (rule.weight (table info).regret menu)) :=
      ⟨menu.nodup, fun _ hb => hb, fun b hb K hK => hs K (GameForm.infosOf_next hb hK)⟩
    rw [sample, gain, hinfo]
    split
    case isTrue howner =>
      subst howner
      set tried := enumerate (fun s a => sample rule owner (next a) s)
        (rule.weight (table info).regret menu) menu.actions
        (s.use info menu.actions (rule.weight (table info).regret menu)) (fun _ => 0) 0 with htried
      have hworth : ∀ b rest u, Fresh table menu next (b :: rest) u →
          (sample rule owner (next b) u).expect (fun r => r.2) = (next b).value rule table owner :=
        fun b rest u h => expect_sample_value (hseparated b (h.offered b List.mem_cons_self))
          (h.tally_eq b List.mem_cons_self)
      have hvalues : ∀ b ∈ menu.actions,
          tried.expect (fun r => r.2.1 b) = (next b).value rule table owner := by
        intro b hb
        rw [htried, expect_enumerate_values _ (Fresh.step hsep) _ hworth menu.nodup hfresh, if_pos hb]
      have hvalue : tried.expect (fun r => r.2.2) =
          (GameForm.decision owner info menu next).value rule table owner := by
        rw [htried, expect_enumerate_value _ (Fresh.step hsep) _ hworth hfresh, zero_add,
          GameForm.value]
      have hgained : tried.expect (fun r => f (r.1.tally J)) =
          f (s.tally J) + (menu.actions.map fun b => gain rule table owner J amount (next b)).sum :=
        expect_enumerate _ (Fresh.step hsep) (fun u => f (u.tally J)) _
          (fun b rest u h => ih b (hseparated b (h.offered b List.mem_cons_self))
            (h.tally_eq b List.mem_cons_self)) hfresh _ _
      rw [FinDist.expect_bind]
      simp only [FinDist.expect_pure]
      -- the credit moves the tally of this information set alone
      by_cases hJ : info = J
      · subst hJ
        rw [if_pos rfl]
        simp only [hcredit]
        rw [FinDist.expect_add, hgained, hamount info menu next tried hvalues hvalue]
        ring
      · simp only [Ledger.credit_of_ne _ (Ne.symm hJ)]
        rw [hgained, if_neg hJ, zero_add]
    case isFalse =>
      rw [FinDist.expect_bind, rule.expect_draw]
      calc (menu.actions.map fun b => rule.weight (table info).regret menu b *
            (sample rule i (next b)
              (s.use info menu.actions (rule.weight (table info).regret menu))).expect
                fun r => f (r.1.tally J)).sum
          = (menu.actions.map fun b =>
              rule.weight (table info).regret menu b * f (s.tally J) +
                rule.weight (table info).regret menu b *
                  gain rule table i J amount (next b)).sum := by
            refine congrArg List.sum (List.map_congr_left fun b hb => ?_)
            rw [ih b (hseparated b hb) (hfresh.tally_eq b hb), mul_add]
            rfl
        _ = _ := by
            rw [List.sum_map_add, List.sum_map_mul_right, rule.total, one_mul]

/-- The strategy sums after a traversal: a visit adds the mixture. -/
theorem expect_sample_strategySum {g : GameForm ι κ α} (hsep : g.Separated) {s : Ledger κ α}
    (hs : ∀ K ∈ g.infos, s.tally K = table K) (J : κ) (a : α) :
    (sample rule i g s).expect (fun r => (r.1.tally J).strategySum a) =
      (s.tally J).strategySum a +
        gain rule table i J (fun info menu _ => rule.weight (table info).regret menu a) g :=
  expect_sample_of_credit (fun tally => tally.strategySum a) (fun _ weight _ _ => weight a)
    (fun s info menu regret values value =>
      s.credit_strategySum info (rule.off regret menu) values value a)
    (fun _ _ _ d _ _ => d.expect_const _) hsep hs J

/-- The regrets after a traversal: a visit adds what the option is worth more than the
decision. -/
theorem expect_sample_regret {g : GameForm ι κ α} (hsep : g.Separated) {s : Ledger κ α}
    (hs : ∀ K ∈ g.infos, s.tally K = table K) (J : κ) (a : α) :
    (sample rule i g s).expect (fun r => (r.1.tally J).regret a) =
      (s.tally J).regret a +
        gain rule table i J (fun info menu next =>
          if a ∈ menu.actions then (next a).value rule table i -
            (GameForm.decision i info menu next).value rule table i else 0) g := by
  refine expect_sample_of_credit (fun tally => tally.regret a)
    (fun menu _ values value => if a ∈ menu.actions then values a - value else 0) ?_ ?_ hsep hs J
  · intro s info menu regret values value
    rw [Ledger.credit_tally]
    dsimp only
    split
    · rfl
    · rw [add_zero]
  · intro info menu next d hvalues hvalue
    by_cases ha : a ∈ menu.actions
    · simp only [if_pos ha]
      rw [FinDist.expect_sub, hvalues a ha, hvalue]
    · simp only [if_neg ha]
      exact d.expect_const 0

end Gain

end Sample

end VibePoker.Math
