import VibePoker.Theorems.AbstractHistory
import VibePoker.Trainer.Mccfr

/-!
# How the average strategy is weighted

The strategy sums are documented to normalise to the average that converges to the equilibrium.
For that a visit has to add the current strategy of the seat in proportion to the probability
with which that strategy comes to the info set. But the sums are updated at the decisions of the
traverser, where all actions are tried: the weight is the opponent's reach alone. The two are the
same only at a seat's first decision of a hand, which its own strategy cannot miss.

## Main definitions

* `expectedIncrement` — what an iteration adds to a strategy sum on average
* `ReachWeighted` — that it is weighted with the seat's own reach
* `FirstOwn` — no earlier decision on the line is the seat's own

## Main results

* `reachWeighted_iff` — the sums are weighted so at first decisions exactly
-/

namespace VibePoker.Trainer

open VibePoker.Core VibePoker.CS VibePoker.Math VibePoker.Game

/-! ## The statement -/

section Statement

variable (e : Engine) (fuel deckSeed : ℕ) (order : Fin 52 → Card) (startingStacks : List ℕ)
  (dealer : ℕ)

/-- What an iteration adds on average to the strategy sum of an action. -/
def expectedIncrement (table : RegretTable) (I : InfoSet) (a : AbstractAction) : ℚ :=
  (iterate e fuel deckSeed order startingStacks dealer table).run.expect fun o =>
    o.elim 0 fun table' => (table'.entryMut I).strategySum a - (table.entryMut I).strategySum a

/-- The average of a quantity of the table with which the traversal of a seat starts. -/
def expectedBefore (i : Fin startingStacks.length) (table : RegretTable)
    (factor : RegretTable → ℚ) : ℚ :=
  (traversals e fuel deckSeed order startingStacks dealer
      ((List.finRange startingStacks.length).take i) table).run.expect fun o => o.elim 0 factor

/-- At an info set of the seat `i`, the expected increment is proportional to the seat's own
probability of reaching it times its strategy there. The factor may depend on what the others'
entries are when the seat's traversal starts, and not on its own. -/
def ReachWeighted (root : GameTree startingStacks.length) (i : Fin startingStacks.length)
    (I : InfoSet) : Prop :=
  ∀ line menu next,
    GameForm.walk line (abstractGame e fuel root []) = some (.decision i I menu next) →
    ∃ factor : RegretTable → ℚ,
      (∀ table table' : RegretTable,
        (∀ J ∈ (abstractGame e fuel root []).infosOf (· ≠ i),
          (table.entryMut J).regret = (table'.entryMut J).regret) →
        factor table = factor table') ∧
      ∀ table, ∀ a ∈ menu.actions,
        expectedIncrement e fuel deckSeed order startingStacks dealer table I a =
          expectedBefore e fuel deckSeed order startingStacks dealer i table factor *
            GameForm.reach regretRule (tallies table) (· = i) line
              (abstractGame e fuel root []) *
            (regretMatching (table.entryMut I).regret menu.actions).probs a

end Statement

/-- No decision on the line is the seat's own. -/
def FirstOwn {n : ℕ} (game : GameForm (Fin n) InfoSet AbstractAction) (i : Fin n)
    (line : List AbstractAction) : Prop :=
  ∀ earlier a later owner J menu next, line = earlier ++ a :: later →
    GameForm.walk earlier game = some (.decision owner J menu next) → owner ≠ i

/-! ## The increments -/

section Hand

variable {e : Engine} {fuel deckSeed dealer : ℕ} {order : Fin 52 → Card}
  {startingStacks : List ℕ} {root : GameTree startingStacks.length}
  {i : Fin startingStacks.length} {I : InfoSet} {line : List AbstractAction}
  {menu : Menu AbstractAction}
  {next : AbstractAction → GameForm (Fin startingStacks.length) InfoSet AbstractAction}

/-- A quantity that only depends on the tallies, on average. -/
theorem expectedBefore_eq
    (hroot : (GameTree.new e 0 deckSeed order startingStacks dealer none).2 = some root)
    (hcompletes : CompletesWithin e fuel root) (table : RegretTable)
    (factor : (InfoSet → Tally AbstractAction) → ℚ) :
    expectedBefore e fuel deckSeed order startingStacks dealer i table
        (fun table => factor (tallies table)) =
      (rounds regretRule (abstractGame e fuel root [])
        ((List.finRange startingStacks.length).take i) (tallies table)).expect factor :=
  (traversals_yields hroot hcompletes _ table).expect factor 0

/-- An iteration adds the seat's strategy, weighted with the others' reach. -/
theorem expectedIncrement_eq
    (hroot : (GameTree.new e 0 deckSeed order startingStacks dealer none).2 = some root)
    (hcompletes : CompletesWithin e fuel root)
    (hwalk : GameForm.walk line (abstractGame e fuel root []) = some (.decision i I menu next))
    (table : RegretTable) (a : AbstractAction) :
    expectedIncrement e fuel deckSeed order startingStacks dealer table I a =
      (rounds regretRule (abstractGame e fuel root [])
        ((List.finRange startingStacks.length).take i) (tallies table)).expect
          (fun tally => GameForm.reach regretRule tally (· ≠ i) line
            (abstractGame e fuel root [])) *
        (regretMatching (table.entryMut I).regret menu.actions).probs a := by
  set before := (List.finRange startingStacks.length).take i with hbefore
  set after := (List.finRange startingStacks.length).drop (i + 1) with hafter
  -- only the traversal of the own seat credits the information set; those before it move the
  -- regrets
  have hseats : List.finRange startingStacks.length = before ++ i :: after := by
    have hlt : (i : ℕ) < (List.finRange startingStacks.length).length := by simp
    have hget : (List.finRange startingStacks.length)[(i : ℕ)] = i := by simp
    rw [hbefore, hafter]
    conv_lhs => rw [← List.take_append_drop i (List.finRange startingStacks.length),
      List.drop_eq_getElem_cons hlt, hget]
  have hnodup := List.nodup_finRange startingStacks.length
  rw [hseats] at hnodup
  obtain ⟨-, hlater, hapart⟩ := List.nodup_append.mp hnodup
  have hnotBefore : i ∉ before := fun hmem => hapart i hmem i List.mem_cons_self rfl
  have hnotAfter : i ∉ after := (List.nodup_cons.mp hlater).1
  have hrounds := @expect_rounds_strategySum _ _ _ _ _ _ regretRule i _
    (separated_abstractGame fuel root []) before after hnotBefore hnotAfter (tallies table) line I
    menu next hwalk a
  rw [← hseats] at hrounds
  have hyields := (traversals_yields hroot hcompletes (List.finRange startingStacks.length)
    table).expect (fun tally => (tally I).strategySum a - (tallies table I).strategySum a) 0
  rw [FinDist.expect_sub_const, hrounds, add_sub_cancel_left] at hyields
  exact hyields

/-! ## First decisions -/

/-- At a first decision the seat's own reach is one. -/
theorem reachWeighted_of_firstOwn
    (hroot : (GameTree.new e 0 deckSeed order startingStacks dealer none).2 = some root)
    (hcompletes : CompletesWithin e fuel root)
    (h : ∀ line menu next,
      GameForm.walk line (abstractGame e fuel root []) = some (.decision i I menu next) →
        FirstOwn (abstractGame e fuel root []) i line) :
    ReachWeighted e fuel deckSeed order startingStacks dealer root i I := by
  intro line menu next hwalk
  refine ⟨fun table => GameForm.reach regretRule (tallies table) (· ≠ i) line
    (abstractGame e fuel root []), fun table table' hsame => ?_, fun table a _ => ?_⟩
  · exact GameForm.reach_congr hsame hwalk
  · have hown : GameForm.reach regretRule (tallies table) (· = i) line
        (abstractGame e fuel root []) = 1 := GameForm.reach_eq_one hwalk (h line menu next hwalk)
    rw [hown, mul_one, expectedIncrement_eq hroot hcompletes hwalk table a]
    exact congrArg (· * _) (expectedBefore_eq hroot hcompletes table fun tally =>
      GameForm.reach regretRule tally (· ≠ i) line (abstractGame e fuel root [])).symm

/-! ## Later decisions -/

/-- An action without regret is not played beside one with a regret. -/
theorem regretMatching_eq_zero {regrets : AbstractAction → ℚ} {legal : List AbstractAction}
    {b c : AbstractAction} (hb : regrets b ≤ 0) (hc : c ∈ legal) (hpos : 0 < regrets c) :
    (regretMatching regrets legal).probs b = 0 := by
  have hle : max (regrets c) 0 ≤ (legal.map fun a => max (regrets a) 0).sum :=
    List.single_le_sum (by simp) _ (List.mem_map_of_mem hc)
  have hsum : 0 < (legal.map fun a => max (regrets a) 0).sum :=
    (lt_max_of_lt_left hpos).trans_le hle
  rw [regretMatching]
  dsimp only
  rw [if_pos hsum, max_eq_right hb, zero_div, ite_self]

/-- At each decision there is a choice. -/
theorem exists_other_action
    (hroot : (GameTree.new e 0 deckSeed order startingStacks dealer none).2 = some root)
    (hwalk : GameForm.walk line (abstractGame e fuel root []) = some (.decision i I menu next))
    (b : AbstractAction) : ∃ c ∈ menu.actions, c ≠ b := by
  obtain ⟨tree, obs, hpath, hobs, hmenu⟩ := path_of_walk hwalk
  obtain ⟨d, hd, hseen⟩ := observationOwned_eq_some_iff.mp hobs
  have hall : .allIn ∈ menu.actions := by
    rw [hmenu, mem_legalAbstractActions_iff, Decision.observation_legalActions hseen]
    exact stack_pos_of_descends hroot hpath hd
  by_cases hb : b = .allIn
  · cases hcheck : obs.legalActions.canCheck with
    | true =>
      refine ⟨.call, ?_, by rw [hb]; decide⟩
      rw [hmenu, mem_legalAbstractActions_iff]
      simp [hcheck]
    | false =>
      refine ⟨.fold, ?_, by rw [hb]; decide⟩
      rw [hmenu, mem_legalAbstractActions_iff]
      exact hcheck
  · exact ⟨.allIn, hall, Ne.symm hb⟩

/-- A table under which one action is played at `K`, and all actions alike elsewhere. -/
def lopsided (K : InfoSet) (c : AbstractAction) (level : ℚ) : RegretTable :=
  ⟨fun J => some
    { regret := if J = K then fun a => if a = c then 1 else 0 else fun _ => level
      strategySum := fun _ => 0
      visits := 0 }⟩

theorem lopsided_self (K : InfoSet) (c : AbstractAction) (level : ℚ) (a : AbstractAction) :
    ((lopsided K c level).entryMut K).regret a = if a = c then 1 else 0 := by
  have hentry : ((lopsided K c level).entryMut K).regret = fun a => if a = c then 1 else 0 :=
    if_pos rfl
  rw [hentry]

theorem lopsided_of_ne {K J : InfoSet} (h : J ≠ K) (c : AbstractAction) (level : ℚ)
    (a : AbstractAction) : ((lopsided K c level).entryMut J).regret a = level := by
  have hentry : ((lopsided K c level).entryMut J).regret = fun _ => level := if_neg h
  rw [hentry]

/-- Behind an own decision the sums grow under a table whose strategy does not come there. -/
theorem exists_increment_without_reach
    (hroot : (GameTree.new e 0 deckSeed order startingStacks dealer none).2 = some root)
    (hcompletes : CompletesWithin e fuel root) {earlier later : List AbstractAction}
    {b : AbstractAction} {K : InfoSet} {menu₀ : Menu AbstractAction}
    {next₀ : AbstractAction → GameForm (Fin startingStacks.length) InfoSet AbstractAction}
    (hwalk : GameForm.walk (earlier ++ b :: later) (abstractGame e fuel root []) =
      some (.decision i I menu next))
    (hearlier : GameForm.walk earlier (abstractGame e fuel root []) =
      some (.decision i K menu₀ next₀)) :
    ∃ table, GameForm.reach regretRule (tallies table) (· = i) (earlier ++ b :: later)
        (abstractGame e fuel root []) = 0 ∧
      ∀ a ∈ menu.actions,
        0 < expectedIncrement e fuel deckSeed order startingStacks dealer table I a := by
  have hsep := separated_abstractGame (e := e) fuel root []
  obtain ⟨c, hc, hne⟩ := exists_other_action hroot hearlier b
  -- the others' regrets are so high that the traversals before the seat's do not use them up
  set before := (List.finRange startingStacks.length).take i with hbefore
  set drift := (before.map fun j => (abstractGame e fuel root []).drift j).sum with hdrift
  have hnonneg : 0 ≤ drift :=
    List.sum_nonneg (List.forall_mem_map.mpr fun j _ => GameForm.drift_nonneg j _)
  have hIK : I ≠ K := by
    rintro rfl
    have hlength := congrArg List.length (hsep.line_unique hwalk hearlier)
    simp at hlength
  have hothers : ∀ J ∈ (abstractGame e fuel root []).infosOf (· ≠ i), J ≠ K := by
    rintro J hJ rfl
    obtain ⟨line, owner, menu', next', hline, howner⟩ := GameForm.exists_walk_of_mem hJ
    obtain rfl := hsep.line_unique hline hearlier
    rw [hline] at hearlier
    exact howner (GameForm.decision.inj (Option.some.inj hearlier)).1
  refine ⟨lopsided K c (drift + 1), ?_, fun a ha => ?_⟩
  · refine GameForm.reach_eq_zero hearlier rfl (regretMatching_eq_zero ?_ hc ?_)
    · exact ((lopsided_self K c _ b).trans (if_neg (Ne.symm hne))).le
    · exact zero_lt_one.trans_eq ((lopsided_self K c _ c).trans (if_pos rfl)).symm
  · rw [expectedIncrement_eq hroot hcompletes hwalk]
    refine mul_pos (FinDist.expect_pos ((rounds_regret _ _).mono fun tally hmoved => ?_)) ?_
    · refine GameForm.reach_pos hwalk fun J hJ menu' a ha => regretMatching_pos _ _ ha ?_
      have hlevel : (tallies (lopsided K c (drift + 1)) J).regret a = drift + 1 :=
        lopsided_of_ne (hothers J hJ) c _ a
      have hbound := (abs_le.mp (hmoved J a)).1
      rw [hlevel, ← hbefore, ← hdrift] at hbound
      linarith
    · refine regretMatching_pos _ _ ha ?_
      rw [lopsided_of_ne hIK]
      linarith

theorem not_reachWeighted_of_own
    (hroot : (GameTree.new e 0 deckSeed order startingStacks dealer none).2 = some root)
    (hcompletes : CompletesWithin e fuel root) {earlier later : List AbstractAction}
    {b : AbstractAction} {K : InfoSet} {menu₀ : Menu AbstractAction}
    {next₀ : AbstractAction → GameForm (Fin startingStacks.length) InfoSet AbstractAction}
    (hwalk : GameForm.walk (earlier ++ b :: later) (abstractGame e fuel root []) =
      some (.decision i I menu next))
    (hearlier : GameForm.walk earlier (abstractGame e fuel root []) =
      some (.decision i K menu₀ next₀)) :
    ¬ ReachWeighted e fuel deckSeed order startingStacks dealer root i I := by
  intro h
  obtain ⟨factor, -, hweighted⟩ := h _ menu next hwalk
  obtain ⟨table, hzero, hgrows⟩ := exists_increment_without_reach hroot hcompletes hwalk hearlier
  obtain ⟨a, ha⟩ := List.exists_mem_of_ne_nil _ menu.ne_nil
  have hincrement := hgrows a ha
  rw [hweighted table a ha, hzero, mul_zero, zero_mul] at hincrement
  exact lt_irrefl 0 hincrement

/-- The strategy sums of an info set are weighted with the seat's own reach exactly when it is
the seat's first decision of the hand. -/
theorem reachWeighted_iff
    (hroot : (GameTree.new e 0 deckSeed order startingStacks dealer none).2 = some root)
    (hcompletes : CompletesWithin e fuel root) :
    ReachWeighted e fuel deckSeed order startingStacks dealer root i I ↔
      ∀ line menu next,
        GameForm.walk line (abstractGame e fuel root []) = some (.decision i I menu next) →
          FirstOwn (abstractGame e fuel root []) i line := by
  constructor
  · rintro h line menu next hwalk earlier b later owner K menu₀ next₀ rfl hearlier rfl
    exact not_reachWeighted_of_own hroot hcompletes hwalk hearlier h
  · exact reachWeighted_of_firstOwn hroot hcompletes

/-- The same of every hand that completes, and the hands of the trainer do. -/
theorem averages_reach_iff
    (hroot : (GameTree.new e 0 deckSeed order startingStacks dealer none).2 = some root)
    (i : Fin startingStacks.length) (I : InfoSet) :
    (∀ fuel, CompletesWithin e fuel root →
      (ReachWeighted e fuel deckSeed order startingStacks dealer root i I ↔
        ∀ line menu next,
          GameForm.walk line (abstractGame e fuel root []) = some (.decision i I menu next) →
            FirstOwn (abstractGame e fuel root []) i line)) ∧
    ∀ smallBlind bigBlind, e.rules = .noLimitHoldem smallBlind bigBlind →
      smallBlind ≤ bigBlind → 0 < bigBlind → startingStacks.length = 2 →
        (∀ stack ∈ startingStacks, 0 < stack) →
          ∃ bound, ∀ fuel, bound < fuel → CompletesWithin e fuel root := by
  refine ⟨fun fuel hcompletes => reachWeighted_iff hroot hcompletes, ?_⟩
  intro smallBlind bigBlind hrules hblinds hblind hseats hchips
  exact exists_completesWithin hroot hrules hblinds hblind hseats hchips

end Hand

/-! ## A second decision -/

/-- A first traversal of a hand with twenty-five big blinds. -/
theorem averages_reach_fifty :
    ∃ root, (GameTree.new smallGame 0 0 Card.mk [50, 50] 0 none).2 = some root ∧
      ∃ fuel, ∀ i I, ReachWeighted smallGame fuel 0 Card.mk [50, 50] 0 root i I ↔
        ∀ line menu next,
          GameForm.walk line (abstractGame smallGame fuel root []) =
            some (.decision i I menu next) →
          FirstOwn (abstractGame smallGame fuel root []) i line := by
  obtain ⟨root, hroot⟩ := Option.isSome_iff_exists.mp
    (by decide +kernel : (GameTree.new smallGame 0 0 Card.mk [50, 50] 0 none).2.isSome)
  obtain ⟨bound, hbound⟩ := (averages_reach_iff hroot 0 ⟨.preflop, 0, 0, []⟩).2 1 2 rfl
    (by decide) (by decide) rfl (by decide)
  exact ⟨root, hroot, bound + 1, fun i I => (averages_reach_iff hroot i I).1 _
    (hbound _ bound.lt_succ_self)⟩

/-- A path that the traversal enumerates is a line of play. -/
theorem walk_of_path {n : ℕ} {e : Engine} {fuel : ℕ} {tree tree' : GameTree n}
    (h : CompletesWithin e fuel tree) {line : List AbstractAction}
    (hpath : Trace (Enumerates e) tree line tree') {d : Decision n}
    (hd : tree'.decision? = some d) {obs : Observation}
    (hobs : tree'.observationOwned e = some obs) (history : List AbstractAction) :
    ∃ menu next, GameForm.walk line (abstractGame e fuel tree history) =
      some (.decision d.seat (.fromObservation obs (history ++ line)) menu next) := by
  induction hpath generalizing fuel history with
  | nil tree =>
    obtain ⟨fuel', hlegal, hgame, -⟩ := abstractGame_of_completes h hd hobs history
    rw [hgame, List.append_nil]
    exact ⟨_, _, rfl⟩
  | @cons tree tree₁ _ a line head _ ih =>
    obtain ⟨hstep, obs₀, hobs₀, hoffered⟩ := head
    obtain ⟨d₀, hd₀, -⟩ := observationOwned_eq_some_iff.mp hobs₀
    obtain ⟨fuel', hlegal, hgame, hbranch⟩ := abstractGame_of_completes h hd₀ hobs₀ history
    rw [Descends, descend, hobs₀] at hstep
    have happly : (tree.applyAction e (concretize a obs₀)).2 = some tree₁ := hstep
    obtain ⟨tree', happly', hcompletes⟩ := hbranch a hoffered
    obtain rfl := Option.some.inj (happly.symm.trans happly')
    obtain ⟨menu, next, hwalk⟩ := ih hcompletes hd hobs (history ++ [a])
    refine ⟨menu, next, ?_⟩
    rw [hgame, GameForm.walk, if_pos hoffered, gameAfter_of_step happly, hwalk, List.append_assoc]
    rfl

/-- The small blind raises and is raised again. The sums of its second decision grow under a
table whose strategy does not raise in the first place. -/
theorem increment_after_raise :
    ∃ root, (GameTree.new smallGame 0 0 Card.mk [50, 50] 0 none).2 = some root ∧
      ∃ fuel I menu next, CompletesWithin smallGame fuel root ∧
        GameForm.walk [.raise, .raise] (abstractGame smallGame fuel root []) =
          some (.decision 1 I menu next) ∧
        ¬ ReachWeighted smallGame fuel 0 Card.mk [50, 50] 0 root 1 I ∧
        ∃ table, GameForm.reach regretRule (tallies table) (· = 1) [.raise, .raise]
            (abstractGame smallGame fuel root []) = 0 ∧
          ∀ a ∈ menu.actions,
            0 < expectedIncrement smallGame fuel 0 Card.mk [50, 50] 0 table I a := by
  -- after two raises the seat that raised first is asked again
  have hrun : ((GameTree.new smallGame 0 0 Card.mk [50, 50] 0 none).2.bind fun t₀ =>
      (t₀.observationOwned smallGame).bind fun obs₀ =>
      (descend smallGame t₀ .raise).bind fun t₁ => (t₁.observationOwned smallGame).bind fun obs₁ =>
      (descend smallGame t₁ .raise).bind fun t₂ => (t₂.observationOwned smallGame).map fun obs₂ =>
        decide (obs₀.position = 1 ∧ obs₂.position = 1 ∧
          .raise ∈ legalAbstractActions obs₀.legalActions ∧
            .raise ∈ legalAbstractActions obs₁.legalActions)) = some true := by
    decide +kernel
  obtain ⟨root, hroot, hrun⟩ := Option.bind_eq_some_iff.mp hrun
  obtain ⟨obs₀, hobs₀, hrun⟩ := Option.bind_eq_some_iff.mp hrun
  obtain ⟨t₁, hfirst, hrun⟩ := Option.bind_eq_some_iff.mp hrun
  obtain ⟨obs₁, hobs₁, hrun⟩ := Option.bind_eq_some_iff.mp hrun
  obtain ⟨t₂, hsecond, hrun⟩ := Option.bind_eq_some_iff.mp hrun
  obtain ⟨obs₂, hobs₂, hrun⟩ := Option.map_eq_some_iff.mp hrun
  obtain ⟨hposition₀, hposition₂, hoffered₀, hoffered₁⟩ := of_decide_eq_true hrun
  obtain ⟨bound, hbound⟩ := @exists_completesWithin smallGame [50, 50] 0 0 Card.mk root 1 2 hroot
    rfl (by decide) (by decide) rfl (by decide)
  have hcompletes := hbound _ bound.lt_succ_self
  obtain ⟨d₀, hd₀, hseen₀⟩ := observationOwned_eq_some_iff.mp hobs₀
  obtain ⟨d₂, hd₂, hseen₂⟩ := observationOwned_eq_some_iff.mp hobs₂
  have hseat₀ : d₀.seat = 1 := Fin.ext ((Decision.observation_position hseen₀).symm.trans hposition₀)
  have hseat₂ : d₂.seat = 1 := Fin.ext ((Decision.observation_position hseen₂).symm.trans hposition₂)
  obtain ⟨menu₀, next₀, hwalk₀⟩ := walk_of_path hcompletes (.nil root) hd₀ hobs₀ []
  obtain ⟨menu₂, next₂, hwalk₂⟩ := walk_of_path hcompletes
    (.cons ⟨hfirst, obs₀, hobs₀, hoffered₀⟩ (.single ⟨hsecond, obs₁, hobs₁, hoffered₁⟩)) hd₂ hobs₂ []
  rw [hseat₀] at hwalk₀
  rw [hseat₂] at hwalk₂
  exact ⟨root, hroot, bound + 1, _, menu₂, next₂, hcompletes, hwalk₂,
    @not_reachWeighted_of_own _ _ _ _ _ _ _ _ _ _ _ hroot hcompletes [] [.raise] .raise _ _ _ hwalk₂
      hwalk₀,
    @exists_increment_without_reach _ _ _ _ _ _ _ _ _ _ _ hroot hcompletes [] [.raise] .raise _ _ _
      hwalk₂ hwalk₀⟩

end VibePoker.Trainer
