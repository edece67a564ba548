import VibePoker.Game.RelabelTree
import VibePoker.Theorems.AbstractHistory
import VibePoker.Theorems.SuitSymmetry
import VibePoker.Trainer.Training

/-!
# Training does not know the suits by name

The info sets keep the class of the hole cards only, and the classes know suits as equal or
different. With an evaluator that does so too, training on decks with exchanged suits is training
on the decks themselves: each iteration may exchange the suits in another way, and still all
entries come out the same with the same probabilities.

## Main results

* `traverse_relabel` — a traversal of a relabelled hand is the traversal of the hand
* `train_suit_symmetric` — so is training
-/

namespace VibePoker.Trainer

open VibePoker.Core VibePoker.Abstraction VibePoker.Math VibePoker.Game

variable {n : ℕ} {e : Engine} {f : Card → Card}

/-- What a relabelling must keep for the trainer not to notice it. -/
structure Unnoticed (e : Engine) (f : Card → Card) : Prop where
  overlooks : e.Overlooks f
  fromHole_eq : ∀ hole, PreflopClass.fromHole (Prod.map f f hole) = PreflopClass.fromHole hole

theorem Unnoticed.infoSet (h : Unnoticed e f) (obs : Observation) (history : List AbstractAction) :
    InfoSet.fromObservation (obs.relabel f) history = .fromObservation obs history := by
  rw [InfoSet.fromObservation, InfoSet.fromObservation]
  exact congrArg (fun bucket => (⟨_, _, bucket, _⟩ : InfoSet))
    (congrArg (fun c : PreflopClass => if obs.street = .preflop then c.index else 0)
      (h.fromHole_eq obs.holeCards))

/-! ## Training -/

/-- What a traversal does after an abstract action. -/
def traverseAfter (e : Engine) (i : Fin n) (fuel : ℕ) (tree : GameTree n) (obs : Observation)
    (history : List AbstractAction) (s : Progress) (a : AbstractAction) :
    OptionT FinDist (Progress × ℚ) :=
  match (tree.applyAction e (concretize a obs)).2 with
  | none => failure
  | some tree => traverse e i fuel tree (history ++ [a]) s

/-- A traversal at a decision, in terms of what it looks at. -/
theorem traverse_decision {i seat : Fin n} {fuel : ℕ} {tree : GameTree n} {obs : Observation}
    {hasResponded : Fin n → Bool} (hphase : tree.phase = .decision seat hasResponded)
    (hobs : tree.observationOwned e = some obs) (history : List AbstractAction) (s : Progress) :
    traverse e i (fuel + 1) tree history s =
      let info := InfoSet.fromObservation obs history
      let legal := legalAbstractActions obs.legalActions
      let strategy := regretMatching (s.table.entryMut info).regret legal
      let visited := s.visit info legal strategy
      if seat = i then do
        let tried ← enumerate (traverseAfter e i fuel tree obs history) strategy.probs legal visited
          (fun _ => 0) 0
        pure (tried.1.update info legal strategy tried.2.1 tried.2.2, tried.2.2)
      else strategy.draw >>= traverseAfter e i fuel tree obs history visited := by
  rw [traverse, hphase]
  simp only [hobs]
  rfl

/-- A traversal of a relabelled hand is the traversal of the hand. -/
theorem traverse_relabel (h : Unnoticed e f) (i : Fin n) (fuel : ℕ) (tree : GameTree n)
    (history : List AbstractAction) (s : Progress) :
    traverse e i fuel (tree.relabel f) history s = traverse e i fuel tree history s := by
  induction fuel generalizing tree history s with
  | zero => rfl
  | succ fuel ih =>
    cases hphase : tree.phase with
    | terminal utils =>
      rw [traverse, traverse, GameTree.relabel_phase, hphase]
      rfl
    | decision seat hasResponded =>
      cases hobs : tree.observationOwned e with
      | none =>
        rw [traverse, traverse, GameTree.relabel_phase, hphase]
        simp only [GameTree.observationOwned_relabel, hobs, Option.map_none]
      | some obs =>
        have hrelabel : (tree.relabel f).observationOwned e = some (obs.relabel f) := by
          rw [GameTree.observationOwned_relabel, hobs]
          rfl
        -- below an action both traversals go on alike
        have hafter : traverseAfter e i fuel (tree.relabel f) (obs.relabel f) history =
            traverseAfter e i fuel tree obs history := by
          funext s a
          have hconcrete : concretize a (obs.relabel f) = concretize a obs := rfl
          rw [traverseAfter, traverseAfter, hconcrete, GameTree.applyAction_relabel h.overlooks]
          cases (tree.applyAction e (concretize a obs)).2 with
          | none => rfl
          | some tree' => exact ih tree' _ s
        rw [traverse_decision hphase hobs,
          traverse_decision ((GameTree.relabel_phase f tree).trans hphase) hrelabel, hafter,
          h.infoSet]
        rfl

theorem iterate_relabel (h : Unnoticed e f) (fuel deckSeed : ℕ) (order : Fin 52 → Card)
    (startingStacks : List ℕ) (dealer : ℕ) (table : RegretTable) :
    iterate e fuel deckSeed (f ∘ order) startingStacks dealer table =
      iterate e fuel deckSeed order startingStacks dealer table := by
  rw [iterate, iterate, traversals, traversals, GameTree.new_relabel]
  refine congrArg (fun step => List.foldlM step table _) (funext fun table => funext fun i => ?_)
  cases (GameTree.new e 0 deckSeed order startingStacks dealer none).2 with
  | none => rfl
  | some root =>
    have hstart : ∀ root : GameTree startingStacks.length,
        (OptionT.mk (pure (some root)) : OptionT FinDist _) = pure root := fun _ => rfl
    rw [Option.map_some, hstart, hstart, pure_bind, pure_bind, traverse_relabel h]

/-- With an evaluator that does not know the suits by name, training on decks whose suits are
exchanged, in a different way for each seed, is training on the decks. -/
theorem train_suit_symmetric (hsuits : ∀ σ : Equiv.Perm Suit, e.Overlooks (Card.permuteSuits σ))
    (σ : ℕ → Equiv.Perm Suit) (fuel : ℕ) (shuffle : ℕ → Fin 52 → Card) (seed : ℕ)
    (startingStacks : List ℕ) (iters : ℕ) :
    train e fuel (fun deckSeed => Card.permuteSuits (σ deckSeed) ∘ shuffle deckSeed) seed
        startingStacks iters =
      train e fuel shuffle seed startingStacks iters := by
  rw [train, train]
  refine congrArg (fun step => List.foldlM step RegretTable.empty (List.range iters))
    (funext fun table => funext fun i => ?_)
  exact iterate_relabel ⟨hsuits _, fromHole_permuteSuits _⟩ fuel _ _ startingStacks _ table

/-- Two iterations of which the second has spades for clubs. -/
theorem train_suit_symmetric_naive :
    train ⟨.noLimitHoldem 1 2, naiveEvaluator.toHandEvaluator⟩ 9
        (fun deckSeed => Card.permuteSuits (if deckSeed = 2 then Equiv.swap 0 3 else 1) ∘ Card.mk) 0
        [50, 50] 2 =
      train ⟨.noLimitHoldem 1 2, naiveEvaluator.toHandEvaluator⟩ 9 (fun _ => Card.mk) 0
        [50, 50] 2 :=
  train_suit_symmetric (overlooks_suits _)
    (fun deckSeed => if deckSeed = 2 then Equiv.swap 0 3 else 1) 9 (fun _ => Card.mk) 0 [50, 50] 2

end VibePoker.Trainer
