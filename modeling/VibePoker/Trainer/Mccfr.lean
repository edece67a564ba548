import VibePoker.Game.Termination
import VibePoker.Math.SamplingRounds
import VibePoker.Trainer.Descent
import VibePoker.Trainer.Regret

/-!
# The trainer

One iteration of the trainer traverses the tree of one hand for each seat. At the decisions of
the traverser all legal abstract actions are tried and the entry of the info set is credited;
at those of the opponent one action is drawn from the current strategy. The current strategy is
regret matching on the table as it is at that moment.

The traversal is external sampling of the abstract game of the hand: the tree under the actions
that the trainer sees.

## Main definitions

* `traverse`, `iterate` — the trainer
* `abstractGame` — the game that the abstract actions make of a hand
* `CompletesWithin` — a bound on the length of the hand

## Main results

* `traverse_yields` — the traversal is external sampling of the abstract game
* `separated_abstractGame` — in it each info set names one decision
-/

namespace VibePoker.Trainer

open VibePoker.Core VibePoker.CS VibePoker.Math VibePoker.Game

variable {n : ℕ} {e : Engine}

/-! ## The traversal -/

/-- The table during a traversal. Beside it stands what was done, the last first: the strategies
that were used, each with its info set and the legal actions, and the info sets whose regrets
were updated. -/
structure Progress where
  table : RegretTable
  used : List (InfoSet × List AbstractAction × (AbstractAction → ℚ))
  updated : List InfoSet

namespace Progress

def start (table : RegretTable) : Progress := ⟨table, [], []⟩

/-- Count a visit to an info set, and note the strategy that is used there. -/
def visit (s : Progress) (info : InfoSet) (legal : List AbstractAction) (strategy : ActionProbs) :
    Progress :=
  let entry := s.table.entryMut info
  { s with
    -- the counter saturates
    table := s.table.set info { entry with visits := min (entry.visits + 1) (2 ^ 32 - 1) }
    used := (info, legal, strategy.probs) :: s.used }

/-- Update the regrets and the strategy sums of an info set of the traverser. -/
def update (s : Progress) (info : InfoSet) (legal : List AbstractAction) (strategy : ActionProbs)
    (branchValues : AbstractAction → ℚ) (nodeValue : ℚ) : Progress :=
  let entry := s.table.entryMut info
  { s with
    table := s.table.set info
      { entry with
        regret := fun a =>
          if a ∈ legal then entry.regret a + (branchValues a - nodeValue) else entry.regret a
        strategySum := fun a =>
          if a ∈ legal then entry.strategySum a + strategy.probs a else entry.strategySum a }
    updated := info :: s.updated }

end Progress

/-- The chips of a seat at the end of a hand: what it is paid less what it put in. -/
def netChips (s : GameState n) (chipDeltas : Fin n → ℤ) (i : Fin n) : ℚ :=
  ((chipDeltas i - (s.players i).totalCommitted : ℤ) : ℚ)

/-- The traversal for one seat, with a bound on its depth. Returns what it did and the value of
the node for the traverser; it fails where the source panics. -/
def traverse (e : Engine) (traverser : Fin n) :
    ℕ → GameTree n → List AbstractAction → Progress → OptionT FinDist (Progress × ℚ)
  | 0, _, _, _ => failure
  | fuel + 1, tree, history, s =>
    match tree.phase with
    | .terminal utils => pure (s, netChips tree.state utils traverser)
    | .decision seat _ =>
      match tree.observationOwned e with
      | none => failure
      | some obs =>
        let info := InfoSet.fromObservation obs history
        let legal := legalAbstractActions obs.legalActions
        let strategy := regretMatching (s.table.entryMut info).regret legal
        let visited := s.visit info legal strategy
        -- what is below an action, in the table as it is by then
        let branch := fun (s : Progress) (a : AbstractAction) =>
          match (tree.applyAction e (concretize a obs)).2 with
          | none => failure
          | some tree => traverse e traverser fuel tree (history ++ [a]) s
        if seat = traverser then do
          let tried ← enumerate branch strategy.probs legal visited (fun _ => 0) 0
          pure (tried.1.update info legal strategy tried.2.1 tried.2.2, tried.2.2)
        else do
          let sampled ← strategy.draw
          branch visited sampled

/-- Traversals for the given seats, one after the other, on the same deck. -/
def traversals (e : Engine) (fuel deckSeed : ℕ) (order : Fin 52 → Card)
    (startingStacks : List ℕ) (dealer : ℕ) (traversers : List (Fin startingStacks.length))
    (table : RegretTable) : OptionT FinDist RegretTable :=
  traversers.foldlM (fun table traverser => do
    let tree ← OptionT.mk (pure (GameTree.new e 0 deckSeed order startingStacks dealer none).2)
    let done ← traverse e traverser fuel tree [] (.start table)
    pure done.1.table) table

theorem traversals_cons (fuel deckSeed : ℕ) (order : Fin 52 → Card) (startingStacks : List ℕ)
    (dealer : ℕ) (i : Fin startingStacks.length) (traversers : List (Fin startingStacks.length))
    (table : RegretTable) :
    traversals e fuel deckSeed order startingStacks dealer (i :: traversers) table =
      (do
        let tree ← OptionT.mk (pure
          (GameTree.new e 0 deckSeed order startingStacks dealer none).2)
        let done ← traverse e i fuel tree [] (.start table)
        pure done.1.table) >>=
        traversals e fuel deckSeed order startingStacks dealer traversers := rfl

/-- One iteration: a traversal for each seat. -/
def iterate (e : Engine) (fuel deckSeed : ℕ) (order : Fin 52 → Card) (startingStacks : List ℕ)
    (dealer : ℕ) (table : RegretTable) : OptionT FinDist RegretTable :=
  traversals e fuel deckSeed order startingStacks dealer (List.finRange startingStacks.length)
    table

/-! ## The abstract game -/

/-- The game that the abstract actions make of a hand, up to a depth. -/
def abstractGame (e : Engine) :
    ℕ → GameTree n → List AbstractAction → GameForm (Fin n) InfoSet AbstractAction
  | 0, _, _ => .leaf fun _ => 0
  | fuel + 1, tree, history =>
    match tree.phase with
    | .terminal utils => .leaf (netChips tree.state utils)
    | .decision seat _ =>
      match tree.observationOwned e with
      | none => .leaf fun _ => 0
      | some obs =>
        if h : legalAbstractActions obs.legalActions = [] then .leaf fun _ => 0
        else
          .decision seat (.fromObservation obs history)
            ⟨legalAbstractActions obs.legalActions, legalAbstractActions_nodup _, h⟩ fun a =>
              match (tree.applyAction e (concretize a obs)).2 with
              | none => .leaf fun _ => 0
              | some tree => abstractGame e fuel tree (history ++ [a])

/-- The abstract game after an abstract action. -/
def gameAfter (e : Engine) (fuel : ℕ) (tree : GameTree n) (obs : Observation)
    (history : List AbstractAction) (a : AbstractAction) :
    GameForm (Fin n) InfoSet AbstractAction :=
  match (tree.applyAction e (concretize a obs)).2 with
  | none => .leaf fun _ => 0
  | some tree => abstractGame e fuel tree (history ++ [a])

theorem gameAfter_of_step {tree tree' : GameTree n} {obs : Observation} {a : AbstractAction}
    (h : (tree.applyAction e (concretize a obs)).2 = some tree') (fuel : ℕ)
    (history : List AbstractAction) :
    gameAfter e fuel tree obs history a = abstractGame e fuel tree' (history ++ [a]) := by
  rw [gameAfter, h]

/-- The abstract game is a leaf, or the decision that the tree is at. -/
theorem abstractGame_cases (e : Engine) (fuel : ℕ) (tree : GameTree n)
    (history : List AbstractAction) :
    (∃ utility, abstractGame e fuel tree history = .leaf utility) ∨
      ∃ fuel' d obs, fuel = fuel' + 1 ∧ tree.decision? = some d ∧
        tree.observationOwned e = some obs ∧ ∃ hlegal,
          abstractGame e fuel tree history =
            .decision d.seat (.fromObservation obs history)
              ⟨legalAbstractActions obs.legalActions, legalAbstractActions_nodup _, hlegal⟩
              (gameAfter e fuel' tree obs history) := by
  cases fuel with
  | zero => exact Or.inl ⟨_, rfl⟩
  | succ fuel =>
    cases hphase : tree.phase with
    | terminal utils =>
      rw [abstractGame, hphase]
      exact Or.inl ⟨_, rfl⟩
    | decision seat hasResponded =>
      have hd : tree.decision? = some ⟨tree.state, hasResponded, seat⟩ := by
        rw [GameTree.decision?, hphase]
      simp only [abstractGame, hphase]
      cases hobs : tree.observationOwned e with
      | none => exact Or.inl ⟨_, rfl⟩
      | some obs =>
        by_cases hlegal : legalAbstractActions obs.legalActions = []
        · exact Or.inl ⟨_, dif_pos hlegal⟩
        · exact Or.inr ⟨fuel, _, obs, rfl, hd, rfl, hlegal, dif_neg hlegal⟩

/-- By whatever legal abstract actions it goes on, the hand is over after less than `fuel` of
them, and nothing panics. -/
def CompletesWithin (e : Engine) : ℕ → GameTree n → Prop
  | 0, _ => False
  | fuel + 1, tree =>
    tree.decision?.isSome → ∃ obs, tree.observationOwned e = some obs ∧
      legalAbstractActions obs.legalActions ≠ [] ∧
        ∀ a ∈ legalAbstractActions obs.legalActions, ∃ tree',
          (tree.applyAction e (concretize a obs)).2 = some tree' ∧ CompletesWithin e fuel tree'

/-- A hand that completes is in the abstract game as it is. -/
theorem abstractGame_of_completes {fuel : ℕ} {tree : GameTree n}
    (h : CompletesWithin e fuel tree) {d : Decision n} (hd : tree.decision? = some d)
    {obs : Observation} (hobs : tree.observationOwned e = some obs)
    (history : List AbstractAction) :
    ∃ fuel' hlegal, abstractGame e fuel tree history =
        .decision d.seat (.fromObservation obs history)
          ⟨legalAbstractActions obs.legalActions, legalAbstractActions_nodup _, hlegal⟩
          (gameAfter e fuel' tree obs history) ∧
      ∀ a ∈ legalAbstractActions obs.legalActions, ∃ tree',
        (tree.applyAction e (concretize a obs)).2 = some tree' ∧ CompletesWithin e fuel' tree' := by
  cases fuel with
  | zero => exact h.elim
  | succ fuel =>
    obtain ⟨obs', hobs', hlegal, hbranch⟩ := h (by rw [hd]; rfl)
    obtain rfl := Option.some.inj (hobs.symm.trans hobs')
    obtain ⟨hphase, -⟩ := GameTree.decision?_eq_some_iff.mp hd
    refine ⟨fuel, hlegal, ?_, hbranch⟩
    simp only [abstractGame, hphase, hobs, dif_neg hlegal]
    rfl

/-! ## The traversal as external sampling -/

/-- The tallies of a table. -/
def tallies (table : RegretTable) (info : InfoSet) : Tally AbstractAction :=
  { regret := (table.entryMut info).regret
    strategySum := (table.entryMut info).strategySum }

/-- The progress of a traversal as a ledger. -/
def Progress.ledger (s : Progress) : Ledger InfoSet AbstractAction :=
  { tally := tallies s.table
    used := s.used
    credited := s.updated }

theorem tallies_set (table : RegretTable) (info : InfoSet) (entry : RegretEntry) :
    tallies (table.set info entry) =
      Function.update (tallies table) info ⟨entry.regret, entry.strategySum⟩ := by
  funext J
  by_cases hJ : J = info
  · subst hJ
    rw [Function.update_self, tallies, RegretTable.entryMut_set_self]
  · rw [Function.update_of_ne hJ, tallies, tallies, RegretTable.entryMut_set_of_ne table hJ]

/-- A visit changes no tally. -/
theorem Progress.visit_ledger (s : Progress) (info : InfoSet) (legal : List AbstractAction)
    (strategy : ActionProbs) :
    (s.visit info legal strategy).ledger = s.ledger.use info legal strategy.probs := by
  have htally : tallies (s.visit info legal strategy).table = tallies s.table := by
    rw [visit, tallies_set]
    exact Function.update_eq_self info (tallies s.table)
  rw [ledger, htally]
  rfl

theorem Progress.update_ledger (s : Progress) (info : InfoSet) (menu : Menu AbstractAction)
    (strategy : ActionProbs) (values : AbstractAction → ℚ) (value : ℚ) :
    (s.update info menu.actions strategy values value).ledger =
      s.ledger.credit info menu strategy.probs values value := by
  rw [ledger, update, tallies_set]
  rfl

theorem CompletesWithin.of_decision {fuel : ℕ} {tree : GameTree n}
    (h : CompletesWithin e (fuel + 1) tree) {seat : Fin n} {hasResponded : Fin n → Bool}
    (hphase : tree.phase = .decision seat hasResponded) :
    ∃ obs, tree.observationOwned e = some obs ∧ legalAbstractActions obs.legalActions ≠ [] ∧
      ∀ a ∈ legalAbstractActions obs.legalActions, ∃ tree',
        (tree.applyAction e (concretize a obs)).2 = some tree' ∧ CompletesWithin e fuel tree' := by
  refine h ?_
  rw [GameTree.decision?, hphase]
  rfl

/-- The traversal does not fail, and it is external sampling of the abstract game. -/
theorem traverse_yields (i : Fin n) {fuel : ℕ} {tree : GameTree n}
    (h : CompletesWithin e fuel tree) (history : List AbstractAction) (s : Progress) :
    FinDist.Yields (Prod.map Progress.ledger id) (traverse e i fuel tree history s)
      (sample regretRule i (abstractGame e fuel tree history) s.ledger) := by
  induction fuel generalizing tree history s with
  | zero => exact h.elim
  | succ fuel ih =>
    cases hphase : tree.phase with
    | terminal utils =>
      simp only [traverse, abstractGame, hphase, sample]
      exact FinDist.Yields.pure _
    | decision seat hasResponded =>
      obtain ⟨obs, hobs, hlegal, hbranch⟩ := h.of_decision hphase
      set menu : Menu AbstractAction :=
        ⟨legalAbstractActions obs.legalActions, legalAbstractActions_nodup _, hlegal⟩ with hmenu
      set info := InfoSet.fromObservation obs history with hinfo
      set strategy := regretMatching (s.table.entryMut info).regret menu.actions with hstrategy
      simp only [traverse, abstractGame, hphase, hobs, dif_neg hlegal]
      -- each legal action leads on, on both sides
      have hnext : ∀ a ∈ menu.actions, ∀ s : Progress, FinDist.Yields (Prod.map Progress.ledger id)
          (match (tree.applyAction e (concretize a obs)).2 with
            | none => failure
            | some tree => traverse e i fuel tree (history ++ [a]) s)
          (sample regretRule i (match (tree.applyAction e (concretize a obs)).2 with
            | none => .leaf fun _ => 0
            | some tree => abstractGame e fuel tree (history ++ [a])) s.ledger) := by
        intro a ha s
        obtain ⟨tree', hstep, hcompletes⟩ := hbranch a ha
        simp only [hstep]
        exact ih hcompletes _ s
      have hvisited : (s.visit info menu.actions strategy).ledger =
          s.ledger.use info menu.actions strategy.probs := s.visit_ledger info menu.actions strategy
      rw [sample]
      split
      case isTrue =>
        have hcredit : ∀ r : Progress × (AbstractAction → ℚ) × ℚ,
            FinDist.Yields (Prod.map Progress.ledger id)
              (pure (r.1.update info menu.actions strategy r.2.1 r.2.2, r.2.2))
              (pure (r.1.ledger.credit info menu strategy.probs r.2.1 r.2.2, r.2.2)) := by
          intro r
          rw [← Progress.update_ledger]
          exact FinDist.Yields.pure _
        have htried := @yields_enumerate Progress _ _ strategy.probs _ Progress.ledger
          (fun s a => match (tree.applyAction e (concretize a obs)).2 with
            | none => failure
            | some tree => traverse e i fuel tree (history ++ [a]) s)
          (fun s a => sample regretRule i (match (tree.applyAction e (concretize a obs)).2 with
            | none => .leaf fun _ => 0
            | some tree => abstractGame e fuel tree (history ++ [a])) s) menu.actions hnext
          (s.visit info menu.actions strategy) (fun _ => 0) 0
        rw [hvisited] at htried
        exact htried.bind hcredit
      case isFalse =>
        have hdraw : strategy.draw = OptionT.lift (regretRule.draw (s.ledger.tally info).regret menu) :=
          draw_regretMatching _ (legalAbstractActions_eq_filter obs.legalActions)
        rw [hdraw]
        refine FinDist.Yields.lift_bind ((regretRule.surely_draw _ menu).mono fun a ha => ?_)
        have hdrawn := hnext a ha (s.visit info menu.actions strategy)
        rw [hvisited] at hdrawn
        exact hdrawn

/-- The traversals of an iteration do not fail, and they are rounds of external sampling. -/
theorem traversals_yields {deckSeed dealer fuel : ℕ} {order : Fin 52 → Card}
    {startingStacks : List ℕ} {root : GameTree startingStacks.length}
    (hroot : (GameTree.new e 0 deckSeed order startingStacks dealer none).2 = some root)
    (h : CompletesWithin e fuel root) (traversers : List (Fin startingStacks.length))
    (table : RegretTable) :
    FinDist.Yields tallies (traversals e fuel deckSeed order startingStacks dealer traversers table)
      (rounds regretRule (abstractGame e fuel root []) traversers (tallies table)) := by
  induction traversers generalizing table with
  | nil => exact FinDist.Yields.pure _
  | cons i traversers ih =>
    have hstart : (OptionT.mk (pure (GameTree.new e 0 deckSeed order startingStacks dealer none).2) :
        OptionT FinDist (GameTree startingStacks.length)) = pure root := by
      rw [hroot]
      rfl
    rw [rounds_cons, traversals_cons, hstart, pure_bind]
    refine FinDist.Yields.bind ?_ ih
    exact (traverse_yields i h [] (.start table)).bind fun done => FinDist.Yields.pure _

/-! ## Info sets and decisions -/

/-- The info sets of a game carry on the history that it starts with. -/
theorem prefix_of_mem_infos {fuel : ℕ} {tree : GameTree n} {history : List AbstractAction}
    {J : InfoSet} (h : J ∈ (abstractGame e fuel tree history).infos) : history <+: J.history := by
  induction fuel generalizing tree history with
  | zero => exact h.elim
  | succ fuel ih =>
    rcases abstractGame_cases e (fuel + 1) tree history with ⟨utility, hgame⟩ |
      ⟨_, d, obs, hfuel, -, -, hlegal, hgame⟩
    · rw [hgame] at h
      exact h.elim
    · obtain rfl := Nat.succ.inj hfuel
      rw [hgame] at h
      rcases h with ⟨rfl, -⟩ | ⟨a, -, h⟩
      · exact List.prefix_refl history
      · cases hstep : (tree.applyAction e (concretize a obs)).2 with
        | none =>
          rw [gameAfter, hstep] at h
          exact h.elim
        | some tree' =>
          rw [gameAfter_of_step hstep] at h
          exact (List.prefix_append history [a]).trans (ih h)

theorem prefix_of_mem_gameAfter {fuel : ℕ} {tree : GameTree n} {obs : Observation}
    {history : List AbstractAction} {a : AbstractAction} {J : InfoSet}
    (h : J ∈ (gameAfter e fuel tree obs history a).infos) : history ++ [a] <+: J.history := by
  cases hstep : (tree.applyAction e (concretize a obs)).2 with
  | none =>
    rw [gameAfter, hstep] at h
    exact h.elim
  | some tree' =>
    rw [gameAfter_of_step hstep] at h
    exact prefix_of_mem_infos h

/-- In the abstract game each info set names one decision. -/
theorem separated_abstractGame (fuel : ℕ) (tree : GameTree n) (history : List AbstractAction) :
    (abstractGame e fuel tree history).Separated := by
  induction fuel generalizing tree history with
  | zero => trivial
  | succ fuel ih =>
    rcases abstractGame_cases e (fuel + 1) tree history with ⟨utility, hgame⟩ |
      ⟨_, d, obs, hfuel, -, -, hlegal, hgame⟩
    · rw [hgame]
      trivial
    · obtain rfl := Nat.succ.inj hfuel
      rw [hgame]
      refine ⟨fun a _ hmem => ?_, fun a _ => ?_, fun a _ b _ hne => ?_⟩
      · -- the histories under an option are longer
        have hle := (prefix_of_mem_gameAfter hmem).length_le
        rw [InfoSet.fromObservation_history, List.length_append, List.length_singleton] at hle
        omega
      · cases hstep : (tree.applyAction e (concretize a obs)).2 with
        | none =>
          rw [gameAfter, hstep]
          trivial
        | some tree' =>
          rw [gameAfter_of_step hstep]
          exact ih tree' _
      · refine Set.disjoint_left.mpr fun J hJ hJ' => hne ?_
        have hsame := List.prefix_of_prefix_length_le (prefix_of_mem_gameAfter hJ)
          (prefix_of_mem_gameAfter hJ') (by simp)
        have heq := hsame.eq_of_length (by simp)
        exact List.singleton_inj.mp (List.append_cancel_left heq)

/-- A line of play of the abstract game is a path of the traversal. -/
theorem path_of_walk {fuel : ℕ} {tree : GameTree n} {history line : List AbstractAction}
    {owner : Fin n} {J : InfoSet} {menu : Menu AbstractAction}
    {next : AbstractAction → GameForm (Fin n) InfoSet AbstractAction}
    (h : GameForm.walk line (abstractGame e fuel tree history) =
      some (.decision owner J menu next)) :
    ∃ tree' obs, Trace (Descends e) tree line tree' ∧ tree'.observationOwned e = some obs ∧
      menu.actions = legalAbstractActions obs.legalActions := by
  induction line generalizing fuel tree history with
  | nil =>
    have hdecision : abstractGame e fuel tree history = .decision owner J menu next :=
      Option.some.inj h
    rcases abstractGame_cases e fuel tree history with ⟨utility, hgame⟩ |
      ⟨_, d, obs, -, -, hobs, hlegal, hgame⟩
    · rw [hgame] at hdecision
      cases hdecision
    · rw [hgame] at hdecision
      obtain ⟨-, -, rfl, -⟩ := GameForm.decision.inj hdecision
      exact ⟨tree, obs, .nil tree, hobs, rfl⟩
  | cons a line ih =>
    obtain ⟨owner₀, info, menu₀, next₀, hdecision, ha, hwalk⟩ :=
      GameForm.walk_cons_eq_some_iff.mp h
    rcases abstractGame_cases e fuel tree history with ⟨utility, hgame⟩ |
      ⟨fuel', d, obs, -, -, hobs, hlegal, hgame⟩
    · rw [hgame] at hdecision
      cases hdecision
    · rw [hgame] at hdecision
      obtain ⟨-, -, rfl, rfl⟩ := GameForm.decision.inj hdecision
      cases hstep : (tree.applyAction e (concretize a obs)).2 with
      | none =>
        rw [gameAfter, hstep] at hwalk
        -- a step that fails leads to a leaf, from which no walk reaches a decision
        cases line <;> cases hwalk
      | some tree₁ =>
        rw [gameAfter_of_step hstep] at hwalk
        obtain ⟨tree', obs', hpath, hobs', hmenu⟩ := ih hwalk
        refine ⟨tree', obs', .cons ?_ hpath, hobs', hmenu⟩
        rw [Descends, descend, hobs]
        exact hstep

/-! ## The hand completes -/

/-- At a decision that is in order a seat has chips, so that some abstract action is legal. -/
theorem legalAbstractActions_ne_nil {start : Fin n → ℕ} {dealt : ℕ} {deck : Deck}
    {d : Decision n} {obs : Observation} (h : Playing start dealt deck d)
    (hobs : d.observation e = some obs) : legalAbstractActions obs.legalActions ≠ [] := by
  have hall : .allIn ∈ legalAbstractActions obs.legalActions := by
    rw [mem_legalAbstractActions_iff, Decision.observation_legalActions hobs]
    exact h.stack_pos
  exact List.ne_nil_of_mem hall

/-- In no-limit betting what is offered is legal. -/
theorem legal_concretize (hvariant : e.rules.variant = .noLimit) {d : Decision n}
    {obs : Observation} (hobs : d.observation e = some obs) {a : AbstractAction}
    (ha : a ∈ legalAbstractActions obs.legalActions) : d.legal e (concretize a obs) := by
  rw [Decision.legal, ← Decision.observation_legalActions hobs]
  refine concretize_isLegal (fun hopen => ?_) ha
  rw [Decision.observation_legalActions hobs] at hopen ⊢
  simp only [Engine.computeLegalActions, hvariant, Bool.and_eq_true, decide_eq_true_eq] at hopen ⊢
  exact hopen.2.le

/-- A hand that is in order is over after less abstract actions than its rank. -/
theorem completesWithin_of_rank (hvariant : e.rules.variant = .noLimit)
    (hblind : 0 < e.rules.bigBlind) {start : Fin n → ℕ} {dealt : ℕ} (hcards : dealt + 5 ≤ 52)
    {fuel : ℕ} {tree : GameTree n} (h : OrderlyTree start dealt tree) (hrank : tree.rank < fuel) :
    CompletesWithin e fuel tree := by
  induction fuel generalizing tree with
  | zero => exact absurd hrank (Nat.not_lt_zero _)
  | succ fuel ih =>
    intro hdecision
    obtain ⟨d, hd⟩ := Option.isSome_iff_exists.mp hdecision
    have hplaying := (h d hd).toPlaying
    obtain ⟨obs, hobs⟩ := Option.ne_none_iff_exists'.mp (hplaying.observation_ne (e := e))
    refine ⟨obs, (GameTree.observationOwned_of_decision hd).trans hobs,
      legalAbstractActions_ne_nil hplaying hobs, fun a ha => ?_⟩
    obtain ⟨tree', hstep⟩ := applyAction_isSome (e := e) hplaying hcards hd (concretize a obs)
    have hlegal := legal_concretize hvariant hobs ha
    refine ⟨tree', hstep, ih (h.step hblind ⟨d, hd, hlegal, hstep⟩) ?_⟩
    cases hd' : tree'.decision? with
    | none =>
      rw [GameTree.rank, hd']
      exact (GameTree.rank_pos hd).trans_le (Nat.lt_succ_iff.mp hrank)
    | some d' =>
      have hless := rank_lt (h d hd) hlegal (hplaying.follows hd hstep) hd'
      rw [GameTree.rank, hd] at hrank
      rw [GameTree.rank, hd']
      dsimp only at hrank ⊢
      omega

/-- A hand of the trainer completes: two stacks with chips in no-limit betting. -/
theorem exists_completesWithin {startingStacks : List ℕ} {deckSeed dealer : ℕ}
    {order : Fin 52 → Card} {root : GameTree startingStacks.length} {smallBlind bigBlind : ℕ}
    (hroot : (GameTree.new e 0 deckSeed order startingStacks dealer none).2 = some root)
    (hrules : e.rules = .noLimitHoldem smallBlind bigBlind) (hblinds : smallBlind ≤ bigBlind)
    (hblind : 0 < bigBlind) (hseats : startingStacks.length = 2)
    (hchips : ∀ stack ∈ startingStacks, 0 < stack) :
    ∃ bound, ∀ fuel, bound < fuel → CompletesWithin e fuel root := by
  have hfunded : fundedSeats startingStacks = 2 := by
    rw [← hseats]
    exact List.countP_eq_length.mpr fun stack hstack => decide_eq_true (hchips stack hstack)
  have horderly : OrderlyTree startingStacks.get (2 * fundedSeats startingStacks) root :=
    orderlyTree_new (by rw [hrules]; rfl) (by rwa [hrules]) (by rwa [hrules]) hfunded.ge hroot
  refine ⟨root.rank, fun fuel hfuel => ?_⟩
  exact completesWithin_of_rank (by rw [hrules]; rfl) (by rwa [hrules]) (by omega) horderly hfuel

end VibePoker.Trainer
