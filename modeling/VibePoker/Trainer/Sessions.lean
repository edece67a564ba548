import VibePoker.Trainer.Recall

/-!
# Training as a session

The iterations of the trainer are the rounds of a session: one abstract game after the other, each
of a hand with a deck of its own.

## Main definitions

* `handGame` — the abstract game of an iteration
* `trainBefore` — training up to a traversal

## Main results

* `exists_hand` — each hand of the trainer starts, and is over within one bound
* `train_yields` — training is a session on the abstract games
* `surely_potential_le` — how far the regrets of a session grow
-/

namespace VibePoker.Trainer

open VibePoker.Core VibePoker.CS VibePoker.Abstraction VibePoker.Math VibePoker.Game

variable {e : Engine}

/-! ## Hands -/

/-- A bound on the number of abstract actions in a hand. -/
def handBound (startingStacks : List ℕ) : ℕ :=
  (startingStacks.sum + startingStacks.length + 3) * (startingStacks.length + 1) +
    startingStacks.length + 1

theorem sum_get (startingStacks : List ℕ) : ∑ i, startingStacks.get i = startingStacks.sum := by
  rw [← List.sum_ofFn, List.ofFn_get]

/-- The chips of a hand bound its rank. -/
theorem rank_le {startingStacks : List ℕ} {dealt : ℕ}
    {t : GameTree startingStacks.length} (h : OrderlyTree startingStacks.get dealt t) :
    t.rank ≤ handBound startingStacks := by
  cases hd : t.decision? with
  | none =>
    rw [GameTree.rank, hd]
    exact Nat.zero_le _
  | some d =>
    rw [GameTree.rank, hd]
    have hseat : ∀ i, (d.state.players i).weight ≤ startingStacks.get i + 1 := by
      intro i
      have hstack := ((h d hd).ledger.seat i).stack_add
      rw [PlayerState.weight]
      split <;> omega
    have hweight : d.state.weight ≤ startingStacks.sum + startingStacks.length := by
      calc d.state.weight ≤ ∑ i, (startingStacks.get i + 1) :=
            Finset.sum_le_sum fun i _ => hseat i
        _ = startingStacks.sum + startingStacks.length := by
            rw [Finset.sum_add_distrib, sum_get, Finset.sum_const, Finset.card_univ,
              Fintype.card_fin, smul_eq_mul, mul_one]
    have hstreets := streetsLeft_le d.state
    have hresponses := unresponded_le d.hasResponded
    have hproduct : (d.state.weight + d.state.streetsLeft) * (startingStacks.length + 1) ≤
        (startingStacks.sum + startingStacks.length + 3) * (startingStacks.length + 1) :=
      Nat.mul_le_mul_right _ (by omega)
    dsimp only
    rw [Decision.rank, handBound]
    omega

section Training

variable {startingStacks : List ℕ} {smallBlind bigBlind : ℕ}

/-- A hand of the trainer: it starts, and whatever is chosen it stays in order, is over before
the bound, and pays within the chips. -/
theorem exists_hand (hrules : e.rules = .noLimitHoldem smallBlind bigBlind)
    (hblinds : smallBlind ≤ bigBlind) (hblind : 0 < bigBlind) (hseats : startingStacks.length = 2)
    (hchips : ∀ stack ∈ startingStacks, 0 < stack) (deckSeed : ℕ) (order : Fin 52 → Card)
    (dealer : ℕ) :
    ∃ root, (GameTree.new e 0 deckSeed order startingStacks dealer none).2 = some root ∧
      OrderlyTree startingStacks.get 4 root ∧
      (∀ fuel, handBound startingStacks < fuel → CompletesWithin e fuel root) ∧
      ∀ fuel i, (abstractGame e fuel root []).Within i (-(startingStacks.get i : ℚ))
        (-(startingStacks.get i : ℚ) + (startingStacks.sum : ℚ)) := by
  have hfunded : fundedSeats startingStacks = 2 := by
    rw [← hseats]
    exact List.countP_eq_length.mpr fun stack hstack => decide_eq_true (hchips stack hstack)
  obtain ⟨root, hroot⟩ := @new_isSome e 0 deckSeed order startingStacks dealer none
    (by omega) (fun _ _ => rfl) ⟨0, by omega⟩ (hchips _ (List.get_mem _ _)) rfl
  have horderly : OrderlyTree startingStacks.get (2 * fundedSeats startingStacks) root :=
    orderlyTree_new (by rw [hrules]; rfl) (by rwa [hrules]) (by rwa [hrules]) hfunded.ge hroot
  have hwithin := within_abstractGame (by rwa [hrules]) hfunded.ge hroot (.nil root)
  rw [hfunded] at horderly
  refine ⟨root, hroot, horderly, fun fuel hfuel => ?_, fun fuel => hwithin fuel []⟩
  exact completesWithin_of_rank (by rw [hrules]; rfl) (by rwa [hrules]) (by omega) horderly
    ((rank_le horderly).trans_lt hfuel)

/-! ## The abstract games of training -/

/-- The abstract game of an iteration. -/
def handGame (e : Engine) (fuel : ℕ) (shuffle : ℕ → Fin 52 → Card) (seed : ℕ)
    (startingStacks : List ℕ) (t : ℕ) :
    GameForm (Fin startingStacks.length) InfoSet AbstractAction :=
  match (GameTree.new e 0 (iterationSeed seed t) (shuffle (iterationSeed seed t)) startingStacks
    (t % 2) none).2 with
  | none => .leaf fun _ => 0
  | some root => abstractGame e fuel root []

/-- Training up to the traversal of seat `i` in the iteration `t`. -/
def trainBefore (e : Engine) (fuel : ℕ) (shuffle : ℕ → Fin 52 → Card) (seed : ℕ)
    (startingStacks : List ℕ) (t : ℕ) (i : Fin startingStacks.length) :
    OptionT FinDist RegretTable :=
  train e fuel shuffle seed startingStacks t >>=
    traversals e fuel (iterationSeed seed t) (shuffle (iterationSeed seed t)) startingStacks
      (t % 2) ((List.finRange startingStacks.length).takeWhile (· ≠ i))

variable {fuel : ℕ} {shuffle : ℕ → Fin 52 → Card} {seed : ℕ}

theorem handGame_of_root {t : ℕ} {root : GameTree startingStacks.length}
    (hroot : (GameTree.new e 0 (iterationSeed seed t) (shuffle (iterationSeed seed t))
      startingStacks (t % 2) none).2 = some root) :
    handGame e fuel shuffle seed startingStacks t = abstractGame e fuel root [] := by
  rw [handGame, hroot]

theorem separated_handGame (t : ℕ) : (handGame e fuel shuffle seed startingStacks t).Separated := by
  rw [handGame]
  split
  · trivial
  · exact separated_abstractGame _ _ _

variable (hrules : e.rules = .noLimitHoldem smallBlind bigBlind)
  (hblinds : smallBlind ≤ bigBlind) (hblind : 0 < bigBlind) (hseats : startingStacks.length = 2)
  (hchips : ∀ stack ∈ startingStacks, 0 < stack)
include hrules hblinds hblind hseats hchips

theorem within_handGame (t : ℕ) (i : Fin startingStacks.length) :
    (handGame e fuel shuffle seed startingStacks t).Within i (-(startingStacks.get i : ℚ))
      (-(startingStacks.get i : ℚ) + (startingStacks.sum : ℚ)) := by
  obtain ⟨root, hroot, -, -, hwithin⟩ := exists_hand hrules hblinds hblind hseats hchips
    (iterationSeed seed t) (shuffle (iterationSeed seed t)) (t % 2)
  rw [handGame_of_root hroot]
  exact hwithin fuel i

/-- Before the flop each seat remembers its play in the games of training. -/
theorem recalls_handGame (t position : ℕ) (i : Fin startingStacks.length) :
    (handGame e fuel shuffle seed startingStacks t).Recalls i (Preflop position) ownChoices [] := by
  obtain ⟨root, hroot, horderly, -⟩ := exists_hand hrules hblinds hblind hseats hchips
    (iterationSeed seed t) (shuffle (iterationSeed seed t)) (t % 2)
  rw [handGame_of_root hroot]
  let bucket := ((root.state.players i).holeCards.map fun hole =>
    (PreflopClass.fromHole hole).index).getD 0
  have hpast : ∀ d, root.decision? = some d → Recalled i bucket d [] [] := by
    intro d hd
    obtain ⟨-, hstate⟩ := GameTree.decision?_eq_some_iff.mp hd
    refine ⟨fun hole hhole => ?_, fun _ _ => ?_, fun _ _ b => ?_⟩
    · simp only [bucket, hstate, hhole, Option.map_some, Option.getD_some]
    · rw [ownChoices_of_length_le (J := preflopInfo _ i _ bucket []) (Nat.zero_le 1)]
    · exact (ownChoices_of_length_le
        (J := preflopInfo _ i d.state.dealer bucket ([] ++ [b])) le_rfl).symm
  exact recalls_of_orderly hseats (by rw [hrules]; rfl) (by rwa [hrules]) horderly hpast

/-- The info sets of the games of training before the flop are among finitely many. -/
theorem covered_handGame {t : ℕ} {i : Fin startingStacks.length} {J : InfoSet}
    (hJ : J ∈ (handGame e fuel shuffle seed startingStacks t).infosOf (· = i)) :
    J.position < 2 ^ 8 ∧ J.bucket < 169 ∧ J.history.length ≤ handBound startingStacks := by
  obtain ⟨root, hroot, horderly, -⟩ := exists_hand hrules hblinds hblind hseats hchips
    (iterationSeed seed t) (shuffle (iterationSeed seed t)) (t % 2)
  rw [handGame_of_root hroot] at hJ
  obtain ⟨d, hd⟩ := exists_decision_of_mem hJ
  have hnamed := namedAfter_of_mem (by rw [hrules]; rfl) (by rwa [hrules]) horderly hd hJ
  have hrank := rank_le horderly
  rw [GameTree.rank, hd] at hrank
  refine ⟨?_, hnamed.bucket_lt, ?_⟩
  · rw [hnamed.position_eq, relativePosition]
    exact Nat.mod_lt _ (by decide)
  · exact hnamed.length_le.trans ((Nat.zero_add d.rank).trans_le (Nat.le_of_succ_le hrank))

section Yields

variable (hfuel : handBound startingStacks < fuel)
include hfuel

theorem iteration_yields (t : ℕ) (traversers : List (Fin startingStacks.length))
    (table : RegretTable) :
    FinDist.Yields tallies
      (traversals e fuel (iterationSeed seed t) (shuffle (iterationSeed seed t)) startingStacks
        (t % 2) traversers table)
      (rounds regretRule (handGame e fuel shuffle seed startingStacks t) traversers
        (tallies table)) := by
  obtain ⟨root, hroot, -, hcompletes, -⟩ := exists_hand hrules hblinds hblind hseats hchips
    (iterationSeed seed t) (shuffle (iterationSeed seed t)) (t % 2)
  rw [handGame_of_root hroot]
  exact traversals_yields hroot (hcompletes fuel hfuel) traversers table

/-- Training does not fail, and it is a session on the abstract games. -/
theorem train_yields (iters : ℕ) :
    FinDist.Yields tallies (train e fuel shuffle seed startingStacks iters)
      (session regretRule (handGame e fuel shuffle seed startingStacks)
        (List.finRange startingStacks.length) (tallies .empty) iters) := by
  induction iters with
  | zero => exact FinDist.Yields.pure _
  | succ t ih =>
    rw [train_succ]
    exact ih.bind fun table =>
      iteration_yields hrules hblinds hblind hseats hchips hfuel t _ table

theorem trainBefore_yields (t : ℕ) (i : Fin startingStacks.length) :
    FinDist.Yields tallies (trainBefore e fuel shuffle seed startingStacks t i)
      (sessionBefore regretRule (handGame e fuel shuffle seed startingStacks)
        (List.finRange startingStacks.length) (tallies .empty) t i) :=
  (train_yields hrules hblinds hblind hseats hchips hfuel t).bind fun table =>
    iteration_yields hrules hblinds hblind hseats hchips hfuel t _ table

end Yields

/-- Over a session the squares of the positive regrets add up to at most four times the square of
all chips for each iteration. -/
theorem surely_potential_le (iters : ℕ) :
    (session regretRule (handGame e fuel shuffle seed startingStacks)
        (List.finRange startingStacks.length) (tallies .empty) iters).Surely fun table =>
      ∀ J, potential (table J).regret ≤ 4 * (startingStacks.sum : ℚ) ^ 2 * iters := by
  have hstart : ∀ J, (tallies .empty J).Bounded
      (Fintype.card AbstractAction * (startingStacks.sum : ℚ) ^ 2) 0 := by
    intro J
    have hempty : tallies .empty J = ⟨fun _ => 0, fun _ => 0⟩ := rfl
    rw [hempty]
    exact ⟨by simp [potential], by simp, fun _ => le_rfl⟩
  refine (session_bounded regretRule_matches separated_handGame (List.nodup_finRange _)
    (within_handGame hrules hblinds hblind hseats hchips) hstart iters).mono ?_
  intro table htable J
  exact (htable J).potential_regret_le (by positivity)

end Training

end VibePoker.Trainer
