import Mathlib.Algebra.BigOperators.Group.Finset.Basic
import VibePoker.Math.FinDist

/-!
# Game forms and reach probabilities

A game form is a finite tree of decisions. Each decision has an owner, is known to its owner
under an info, and offers a menu. When a rule mixes the options of each menu by a table of
tallies, a line of play has a probability for each group of owners: the product of their
weights along the line.

## Main definitions

* `Menu`, `MixRule` — options, and a rule that mixes them by their regrets
* `GameForm` — trees of decisions
* `GameForm.Separated` — each info names one decision
* `GameForm.play`, `GameForm.value` — playing by the rule, and what it is worth on average
* `GameForm.walk`, `GameForm.reach` — following a line of play, and its probability

## Main results

* `reach_eq_one`, `reach_eq_zero`, `reach_pos` — what a group contributes to a line of play
-/

namespace VibePoker.Math

/-- The options of a decision. -/
structure Menu (α : Type) where
  actions : List α
  nodup : actions.Nodup
  ne_nil : actions ≠ []

/-- A rule that turns the regrets of the options into a mixture of them. -/
structure MixRule (α : Type) where
  weight : (α → ℚ) → Menu α → α → ℚ
  nonneg : ∀ regret menu a, 0 ≤ weight regret menu a
  off : ∀ regret menu a, a ∉ menu.actions → weight regret menu a = 0
  total : ∀ regret (menu : Menu α), (menu.actions.map (weight regret menu)).sum = 1

/-- A sum of weighted terms does without the terms of weight zero. -/
theorem sum_filter_pos {α : Type} (options : List α) {weight : α → ℚ}
    (hnonneg : ∀ a ∈ options, 0 ≤ weight a) (f : α → ℚ) :
    ((options.filter fun a => 0 < weight a).map fun a => weight a * f a).sum =
      (options.map fun a => weight a * f a).sum := by
  induction options with
  | nil => rfl
  | cons a options ih =>
    have hrest := ih fun b hb => hnonneg b (List.mem_cons_of_mem a hb)
    rw [List.map_cons, List.sum_cons, ← hrest]
    rcases (hnonneg a List.mem_cons_self).lt_or_eq with hpos | hzero
    · rw [List.filter_cons_of_pos (by simpa using hpos), List.map_cons, List.sum_cons]
    · rw [List.filter_cons_of_neg (by simp [← hzero]), ← hzero, zero_mul, zero_add]

section Draw

variable {α : Type} (rule : MixRule α) (regret : α → ℚ) (menu : Menu α)

/-- The options that the rule may draw. -/
def MixRule.likely : List α := menu.actions.filter fun a => 0 < rule.weight regret menu a

theorem MixRule.sum_likely :
    ((rule.likely regret menu).map (rule.weight regret menu)).sum = 1 := by
  have hfilter := sum_filter_pos menu.actions (fun a _ => rule.nonneg regret menu a) fun _ => 1
  simp only [mul_one] at hfilter
  exact hfilter.trans (rule.total regret menu)

/-- An option by the mixture of the rule. -/
def MixRule.draw : FinDist α :=
  .ofWeights (rule.likely regret menu) (rule.weight regret menu)
    (fun a _ => rule.nonneg regret menu a) (rule.sum_likely regret menu)

theorem MixRule.expect_draw (f : α → ℚ) :
    (rule.draw regret menu).expect f =
      (menu.actions.map fun a => rule.weight regret menu a * f a).sum := by
  rw [draw, FinDist.expect_ofWeights, likely]
  exact sum_filter_pos menu.actions (fun a _ => rule.nonneg regret menu a) f

theorem MixRule.surely_draw : (rule.draw regret menu).Surely (· ∈ menu.actions) :=
  FinDist.surely_ofWeights fun _ ha => List.mem_of_mem_filter ha

end Draw

/-- What is kept under an info: the regrets and the sums of the mixtures used. -/
structure Tally (α : Type) where
  regret : α → ℚ
  strategySum : α → ℚ

/-- A finite tree of decisions; the options off the menu play no role. -/
inductive GameForm (ι κ α : Type)
  | leaf (utility : ι → ℚ)
  | decision (owner : ι) (info : κ) (menu : Menu α) (next : α → GameForm ι κ α)

/-- A sum over a menu with one term that is not zero. -/
theorem Menu.sum_eq_single {α : Type} [DecidableEq α] (menu : Menu α) {f : α → ℚ} {a : α}
    (ha : a ∈ menu.actions) (h : ∀ b ∈ menu.actions, b ≠ a → f b = 0) :
    (menu.actions.map f).sum = f a := by
  rw [← List.sum_toFinset f menu.nodup]
  refine Finset.sum_eq_single a (fun b hb hne => h b (List.mem_toFinset.mp hb) hne) fun hnot => ?_
  exact absurd (List.mem_toFinset.mpr ha) hnot

namespace GameForm

variable {ι κ α : Type}

/-! ## Infos -/

/-- The infos of the decisions whose owners satisfy `who`. -/
def infosOf (who : ι → Prop) : GameForm ι κ α → Set κ
  | leaf _ => ∅
  | decision owner info menu next =>
    {J | (J = info ∧ who owner) ∨ ∃ a ∈ menu.actions, J ∈ infosOf who (next a)}

/-- All infos. -/
def infos (g : GameForm ι κ α) : Set κ := g.infosOf fun _ => True

theorem infosOf_subset {who who' : ι → Prop} (hle : ∀ o, who o → who' o) (g : GameForm ι κ α) :
    g.infosOf who ⊆ g.infosOf who' := by
  induction g with
  | leaf => exact fun _ h => h
  | decision owner info menu next ih =>
    rintro J (⟨hJ, howner⟩ | ⟨a, ha, hJ⟩)
    · exact Or.inl ⟨hJ, hle owner howner⟩
    · exact Or.inr ⟨a, ha, ih a hJ⟩

theorem infosOf_subset_infos (who : ι → Prop) (g : GameForm ι κ α) : g.infosOf who ⊆ g.infos :=
  infosOf_subset (fun _ _ => trivial) g

theorem infosOf_next {who : ι → Prop} {owner : ι} {info : κ} {menu : Menu α}
    {next : α → GameForm ι κ α} {a : α} (ha : a ∈ menu.actions) :
    (next a).infosOf who ⊆ (decision owner info menu next).infosOf who :=
  fun _ hJ => Or.inr ⟨a, ha, hJ⟩

/-- Each info names one decision. -/
def Separated : GameForm ι κ α → Prop
  | leaf _ => True
  | decision _ info menu next =>
    (∀ a ∈ menu.actions, info ∉ (next a).infos) ∧ (∀ a ∈ menu.actions, (next a).Separated) ∧
      ∀ a ∈ menu.actions, ∀ b ∈ menu.actions, a ≠ b → Disjoint (next a).infos (next b).infos

/-! ## Playing a form -/

/-- All owners draw their options by the rule; what the form comes to. -/
def play (rule : MixRule α) (table : κ → Tally α) : GameForm ι κ α → FinDist (ι → ℚ)
  | leaf utility => pure utility
  | decision _ info menu next => do
    let a ← rule.draw (table info).regret menu
    play rule table (next a)

/-- What the owner `i` gets on average when all draw by the rule. -/
def value (rule : MixRule α) (table : κ → Tally α) (i : ι) : GameForm ι κ α → ℚ
  | leaf utility => utility i
  | decision _ info menu next =>
    (menu.actions.map fun a =>
      rule.weight (table info).regret menu a * value rule table i (next a)).sum

theorem expect_play (rule : MixRule α) (table : κ → Tally α) (i : ι) (g : GameForm ι κ α) :
    (g.play rule table).expect (fun utility => utility i) = g.value rule table i := by
  induction g with
  | leaf utility => rw [play, FinDist.expect_pure, value]
  | decision owner info menu next ih =>
    rw [play, value, FinDist.expect_bind, rule.expect_draw]
    exact congrArg List.sum (List.map_congr_left fun a _ => by rw [ih a])

/-! ## Lines of play -/

variable [DecidableEq α]

/-- The form that is left after a line of play. -/
def walk : List α → GameForm ι κ α → Option (GameForm ι κ α)
  | [], g => some g
  | a :: line, decision _ _ menu next => if a ∈ menu.actions then walk line (next a) else none
  | _ :: _, leaf _ => none

/-- What the owners in `who` contribute to the probability of a line of play. -/
def reach (rule : MixRule α) (table : κ → Tally α) (who : ι → Prop) [DecidablePred who] :
    List α → GameForm ι κ α → ℚ
  | [], _ => 1
  | a :: line, decision owner info menu next =>
    (if who owner then rule.weight (table info).regret menu a else 1) *
      reach rule table who line (next a)
  | _ :: _, leaf _ => 0

theorem walk_cons_eq_some_iff {a : α} {line : List α} {g g' : GameForm ι κ α} :
    walk (a :: line) g = some g' ↔ ∃ owner info menu next,
      g = decision owner info menu next ∧ a ∈ menu.actions ∧ walk line (next a) = some g' := by
  cases g with
  | leaf => simp [walk]
  | decision owner info menu next =>
    rw [walk]
    constructor
    · intro h
      split at h
      · exact ⟨owner, info, menu, next, rfl, ‹_›, h⟩
      · cases h
    · rintro ⟨_, _, _, _, heq, ha, h⟩
      obtain ⟨rfl, rfl, rfl, rfl⟩ := decision.inj heq
      rw [if_pos ha, h]

/-- The info of a decision on a line of play is an info of the form. -/
theorem info_mem_of_walk {line : List α} {g : GameForm ι κ α} {owner : ι} {info : κ}
    {menu : Menu α} {next : α → GameForm ι κ α} {who : ι → Prop}
    (h : walk line g = some (decision owner info menu next)) (howner : who owner) :
    info ∈ g.infosOf who := by
  induction line generalizing g with
  | nil =>
    obtain rfl := Option.some.inj h
    exact Or.inl ⟨rfl, howner⟩
  | cons a line ih =>
    obtain ⟨_, _, _, _, rfl, ha, h⟩ := walk_cons_eq_some_iff.mp h
    exact infosOf_next ha (ih h)

/-- An info of the form is the info of a decision on a line of play. -/
theorem exists_walk_of_mem {g : GameForm ι κ α} {who : ι → Prop} {J : κ}
    (h : J ∈ g.infosOf who) :
    ∃ line owner menu next, walk line g = some (decision owner J menu next) ∧ who owner := by
  induction g with
  | leaf => exact h.elim
  | decision owner info menu next ih =>
    rcases h with ⟨rfl, howner⟩ | ⟨a, ha, h⟩
    · exact ⟨[], owner, menu, next, rfl, howner⟩
    · obtain ⟨line, owner', menu', next', hwalk, howner⟩ := ih a h
      exact ⟨a :: line, owner', menu', next', by rw [walk, if_pos ha, hwalk], howner⟩

/-- Where each info names one decision, it is on one line of play. -/
theorem Separated.line_unique {g : GameForm ι κ α} (hsep : g.Separated) {line line' : List α}
    {J : κ} {owner owner' : ι} {menu menu' : Menu α} {next next' : α → GameForm ι κ α}
    (h : walk line g = some (decision owner J menu next))
    (h' : walk line' g = some (decision owner' J menu' next')) : line = line' := by
  induction line generalizing g line' with
  | nil =>
    obtain rfl := Option.some.inj h
    cases line' with
    | nil => rfl
    | cons b line' =>
      obtain ⟨_, _, _, _, heq, hb, h'⟩ := walk_cons_eq_some_iff.mp h'
      obtain ⟨rfl, rfl, rfl, rfl⟩ := decision.inj heq
      exact absurd (info_mem_of_walk h' trivial) (hsep.1 b hb)
  | cons a line ih =>
    obtain ⟨owner₀, info, menu₀, next₀, rfl, ha, h⟩ := walk_cons_eq_some_iff.mp h
    obtain ⟨hinfo, hseparated, hdisjoint⟩ := hsep
    have hJ : J ∈ (next₀ a).infos := info_mem_of_walk h trivial
    cases line' with
    | nil =>
      obtain ⟨-, rfl, -, -⟩ := decision.inj (Option.some.inj h')
      exact absurd hJ (hinfo a ha)
    | cons b line' =>
      obtain ⟨_, _, _, _, heq, hb, h'⟩ := walk_cons_eq_some_iff.mp h'
      obtain ⟨rfl, rfl, rfl, rfl⟩ := decision.inj heq
      by_cases hab : a = b
      · subst hab
        rw [ih (hseparated a ha) h h']
      · exact absurd (info_mem_of_walk h' trivial)
          (Set.disjoint_left.mp (hdisjoint a ha b hb hab) hJ)

section Reach

variable {rule : MixRule α} {table table' : κ → Tally α} {who : ι → Prop} [DecidablePred who]

/-- A probability only depends on the tables at the infos of the group. -/
theorem reach_congr {line : List α} {g : GameForm ι κ α}
    (h : ∀ J ∈ g.infosOf who, (table J).regret = (table' J).regret)
    {g' : GameForm ι κ α} (hwalk : walk line g = some g') :
    reach rule table who line g = reach rule table' who line g := by
  induction line generalizing g with
  | nil => rfl
  | cons a line ih =>
    obtain ⟨owner, info, menu, next, rfl, ha, hwalk⟩ := walk_cons_eq_some_iff.mp hwalk
    rw [reach, reach, ih (fun J hJ => h J (infosOf_next ha hJ)) hwalk]
    split
    case isTrue howner => rw [h info (Or.inl ⟨rfl, howner⟩)]
    case isFalse => rfl

/-- A group that owns no decision on a line contributes nothing to it. -/
theorem reach_eq_one {line : List α} {g g' : GameForm ι κ α} (hwalk : walk line g = some g')
    (h : ∀ earlier a later owner info menu next, line = earlier ++ a :: later →
      walk earlier g = some (decision owner info menu next) → ¬ who owner) :
    reach rule table who line g = 1 := by
  induction line generalizing g with
  | nil => rfl
  | cons a line ih =>
    obtain ⟨owner, info, menu, next, rfl, ha, hwalk⟩ := walk_cons_eq_some_iff.mp hwalk
    rw [reach, if_neg (h [] a line owner info menu next rfl rfl), one_mul]
    refine ih hwalk fun earlier b later owner' info' menu' next' hline hearlier => ?_
    refine h (a :: earlier) b later owner' info' menu' next' (by rw [hline]; rfl) ?_
    rw [walk, if_pos ha, hearlier]

/-- An option of weight zero on a line leaves it no probability. -/
theorem reach_eq_zero {earlier later : List α} {a : α} {g : GameForm ι κ α} {owner : ι}
    {info : κ} {menu : Menu α} {next : α → GameForm ι κ α}
    (hwalk : walk earlier g = some (decision owner info menu next)) (howner : who owner)
    (hzero : rule.weight (table info).regret menu a = 0) :
    reach rule table who (earlier ++ a :: later) g = 0 := by
  induction earlier generalizing g with
  | nil =>
    obtain rfl := Option.some.inj hwalk
    rw [List.nil_append, reach, if_pos howner, hzero, zero_mul]
  | cons b earlier ih =>
    obtain ⟨_, _, _, _, rfl, -, hwalk⟩ := walk_cons_eq_some_iff.mp hwalk
    rw [List.cons_append, reach, ih hwalk, mul_zero]

/-- Where the group gives all options a positive weight, it leaves every line possible. -/
theorem reach_pos {line : List α} {g g' : GameForm ι κ α} (hwalk : walk line g = some g')
    (h : ∀ J ∈ g.infosOf who, ∀ menu : Menu α, ∀ a ∈ menu.actions,
      0 < rule.weight (table J).regret menu a) : 0 < reach rule table who line g := by
  induction line generalizing g with
  | nil => exact one_pos
  | cons a line ih =>
    obtain ⟨owner, info, menu, next, rfl, ha, hwalk⟩ := walk_cons_eq_some_iff.mp hwalk
    have hrest := ih hwalk fun J hJ => h J (infosOf_next ha hJ)
    rw [reach]
    split
    case isTrue howner => exact mul_pos (h info (Or.inl ⟨rfl, howner⟩) menu a ha) hrest
    case isFalse => rwa [one_mul]

end Reach

end GameForm

end VibePoker.Math
