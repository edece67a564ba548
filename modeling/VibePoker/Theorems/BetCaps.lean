import VibePoker.Game.Checks
import VibePoker.Theorems.Reopening

/-!
# Bet caps

Pot-limit betting caps a bet at the size of the pot, fixed-limit betting caps a raise
at the big blind. The legal actions bound raises only: an all-in is offered whatever it
comes to. The pot-limit bound leaves out the bets of the street and counts the collected
pot twice, so that it is the cap only where neither of them binds. All this is about
hands in which no amount overflows; the pot-limit bound adds up to three times the chips
of the table.

## Main definitions

* `Decision.KeepsCaps` — no offered action of the seat goes beyond the cap
* `Decision.WithinCaps` — the whole stack of the seat is within the caps

## Main results

* `caps_kept_iff` — the caps are kept exactly where they do not bind
* `caps_not_kept` — a minimum raise above the maximum, and an all-in above the pot
-/

namespace VibePoker.Game

open VibePoker.Core

variable {n : ℕ} {e : Engine}

namespace Decision

/-- The street bet of the seat if it puts in its whole stack. -/
def reach (d : Decision n) : ℕ :=
  (d.state.players d.seat).stack + (d.state.players d.seat).betThisStreet

/-- The pot after the seat of a decision calls: the collected pot, the bets of the
street and what the seat owes. -/
def potAfterCall (d : Decision n) : ℕ := d.state.potTotal + d.owed

/-- The pot-limit cap on the street bet of the seat. -/
def potCap (d : Decision n) : ℕ := min d.reach (d.state.currentBet + d.potAfterCall)

/-- The caps of the structured variants, for the offered actions `legal`: the maximum
raise is the pot-limit cap, a seat that may raise can, and no offered action takes the
street bet above the cap; with fixed limits, none raises by more than the big blind. -/
structure KeepsCaps (e : Engine) (legal : LegalActions) (d : Decision n) : Prop where
  maxRaise_eq : e.rules.variant = .potLimit → legal.maxRaise = d.potCap
  minRaise_le : e.rules.variant = .potLimit → legal.canRaise → legal.minRaise ≤ legal.maxRaise
  bet_le : e.rules.variant = .potLimit → ∀ raw, legal.isLegal raw →
    ((d.acted raw).players d.seat).betThisStreet ≤ d.potCap
  raise_le : e.rules.variant = .fixedLimit → ∀ raw, legal.isLegal raw →
    (d.acted raw).currentBet ≤ d.state.currentBet + e.rules.bigBlind

/-- With its whole stack the seat stays within the cap. In pot-limit betting it also stays
within what `compute_legal_actions` takes for the cap. -/
def WithinCaps (e : Engine) (d : Decision n) : Prop :=
  match e.rules.variant with
  | .noLimit => True
  | .potLimit => d.reach ≤ d.state.currentBet + d.potAfterCall ∧
      d.reach ≤ d.owed + 2 * (d.state.pot.total + d.owed)
  | .fixedLimit => d.reach ≤ d.state.currentBet + e.rules.bigBlind

instance (d : Decision n) : Decidable (d.WithinCaps e) := by
  unfold WithinCaps
  cases e.rules.variant <;> infer_instance

/-! ## How far an action goes -/

/-- No action puts in more than the stack. -/
theorem acted_bet_le {d : Decision n} (hstack : 0 < (d.state.players d.seat).stack)
    (raw : Action) : ((d.acted raw).players d.seat).betThisStreet ≤ d.reach := by
  have hacts : Acts (d.state.players d.seat) ((d.acted raw).players d.seat) :=
    (actedBy_performAction hstack raw).acts
  generalize (d.acted raw).players d.seat = p at hacts
  rw [reach]
  cases hacts with
  | folds => exact Nat.le_add_left _ _
  | pays amount hless =>
    rw [PlayerState.put_bet]
    omega
  | allIn =>
    simp only [PlayerState.put_bet]
    omega

/-- An action raises the bet at most to what the seat can put in. -/
theorem acted_currentBet_le (d : Decision n) (raw : Action) :
    (d.acted raw).currentBet ≤ max d.state.currentBet d.reach := by
  rw [acted, reach]
  cases hnorm : Engine.normalizeAction d.state d.seat raw with
  | fold => exact le_max_left _ _
  | check => exact le_max_left _ _
  | call => exact le_max_left _ _
  | raise amount =>
    obtain ⟨hless, -⟩ := normalizeAction_eq_raise hnorm
    simp only [Engine.performAction, put_bet_of_raise hnorm]
    omega
  | allIn =>
    simp only [Engine.performAction, PlayerState.put_bet, min_self]
    split_ifs <;> dsimp only [GameState.setPlayer] <;> omega

/-- The street bet after the whole stack is put in. -/
theorem put_stack_bet (d : Decision n) :
    ((d.state.players d.seat).put (d.state.players d.seat).stack).betThisStreet = d.reach := by
  rw [PlayerState.put_bet, min_self, reach, Nat.add_comm]

/-- An all-in takes the street bet as far as the seat can go. -/
theorem acted_allIn_bet (d : Decision n) :
    ((d.acted .allIn).players d.seat).betThisStreet = d.reach := by
  simp only [acted, Engine.normalizeAction, Engine.performAction]
  split_ifs <;> simpa using d.put_stack_bet

/-- The current bet after an all-in is no less than the street bet of the seat. -/
theorem reach_le_acted_allIn (d : Decision n) : d.reach ≤ (d.acted .allIn).currentBet := by
  simp only [acted, Engine.normalizeAction, Engine.performAction, put_stack_bet]
  split_ifs with hover
  · exact le_rfl
  · exact le_rfl
  · exact Nat.not_lt.mp hover

/-! ## The offered actions -/

/-- The pot-limit bound that is offered. -/
theorem maxRaise_of_potLimit {d : Decision n} {canReopen : Bool}
    (hvariant : e.rules.variant = .potLimit) :
    (e.computeLegalActions d.state d.seat canReopen).maxRaise =
      min d.reach (d.owed + 2 * (d.state.pot.total + d.owed)) := by
  simp only [Engine.computeLegalActions, hvariant, reach, owed]
  omega

/-- A seat that may raise has more than the minimum raise. -/
theorem minRaise_lt_reach {d : Decision n} {canReopen : Bool}
    (hvariant : e.rules.variant = .potLimit)
    (hraise : (e.computeLegalActions d.state d.seat canReopen).canRaise) :
    (e.computeLegalActions d.state d.seat canReopen).minRaise < d.reach := by
  simp only [Engine.computeLegalActions, hvariant, Bool.and_eq_true, decide_eq_true_eq]
    at hraise ⊢
  exact hraise.2

variable {d : Decision n} {canReopen : Bool}

/-- A seat whose stack is within the caps keeps to them. -/
theorem WithinCaps.keepsCaps (h : d.WithinCaps e) (hstack : 0 < (d.state.players d.seat).stack) :
    d.KeepsCaps e (e.computeLegalActions d.state d.seat canReopen) := by
  rw [WithinCaps] at h
  constructor
  case maxRaise_eq =>
    intro hvariant
    simp only [hvariant] at h
    rw [maxRaise_of_potLimit hvariant, potCap, min_eq_left h.1, min_eq_left h.2]
  case minRaise_le =>
    intro hvariant hraise
    have hless := minRaise_lt_reach hvariant hraise
    simp only [hvariant] at h
    rw [maxRaise_of_potLimit hvariant, min_eq_left h.2]
    exact hless.le
  case bet_le =>
    intro hvariant raw _
    simp only [hvariant] at h
    rw [potCap, min_eq_left h.1]
    exact acted_bet_le hstack raw
  case raise_le =>
    intro hvariant raw _
    simp only [hvariant] at h
    exact (acted_currentBet_le d raw).trans (max_le (Nat.le_add_right _ _) h)

/-- The all-in is always offered, and shows that the stack is within the caps. -/
theorem KeepsCaps.withinCaps
    (h : d.KeepsCaps e (e.computeLegalActions d.state d.seat canReopen))
    (hstack : 0 < (d.state.players d.seat).stack) : d.WithinCaps e := by
  have hlegal : (e.computeLegalActions d.state d.seat canReopen).isLegal .allIn :=
    decide_eq_true hstack
  rw [WithinCaps]
  cases hvariant : e.rules.variant with
  | noLimit => trivial
  | potLimit =>
    have hbet := h.bet_le hvariant .allIn hlegal
    rw [acted_allIn_bet, potCap] at hbet
    have hcap := h.maxRaise_eq hvariant
    rw [maxRaise_of_potLimit hvariant, potCap] at hcap
    dsimp only
    omega
  | fixedLimit =>
    have hraise := h.raise_le hvariant .allIn hlegal
    exact (reach_le_acted_allIn d).trans hraise

end Decision

section Hand

variable {handId deckSeed : ℕ} {order : Fin 52 → Card} {startingStacks : List ℕ} {dealer : ℕ}
  {seatKinds : Option (List SeatKind)} {answers : List Action}
  {d : Decision startingStacks.length} {obs : Observation}

/-- At every prompt of a hand in which no amount overflows, the offered actions keep to
the caps exactly if the whole stack of the seat does. -/
theorem caps_kept_iff
    {hand : List (Output startingStacks.length) × HandOutcome startingStacks.length}
    (hhand : runHandChecked e handId deckSeed order startingStacks dealer seatKinds answers =
      some hand) (h : (d, obs) ∈ promptsOf hand.1) :
    d.KeepsCaps e obs.legalActions ↔ d.WithinCaps e := by
  obtain rfl := runHand_of_checked hhand
  obtain ⟨deck, hplaying⟩ := playing_of_prompt h
  rw [legalActions_of_prompt h]
  exact ⟨fun hkeeps => hkeeps.withinCaps hplaying.stack_pos,
    fun hwithin => hwithin.keepsCaps hplaying.stack_pos⟩

end Hand

/-- Two players with `stack` chips each play pot-limit, with blinds of 1 and 2. -/
def potLimitHand (stack : ℕ) : List (Output 2) :=
  (runHand ⟨⟨.potLimit, 1, 2, 0⟩, ⟨fun _ => 0⟩⟩ 1 0 (fun i => ⟨i⟩) [stack, stack] 0 none []).1

/-- With 3 chips each, the seat that opens the betting cannot go beyond the cap. -/
theorem caps_kept_short : ∃ p ∈ promptsOf (potLimitHand 3),
    p.1.KeepsCaps ⟨⟨.potLimit, 1, 2, 0⟩, ⟨fun _ => 0⟩⟩ p.2.legalActions := by
  have hany : (promptsOf (potLimitHand 3)).any fun p =>
      p.1.WithinCaps ⟨⟨.potLimit, 1, 2, 0⟩, ⟨fun _ => 0⟩⟩ := by
    decide +kernel
  obtain ⟨p, hp, hwithin⟩ := List.any_eq_true.mp hany
  have hhand : runHandChecked ⟨⟨.potLimit, 1, 2, 0⟩, ⟨fun _ => 0⟩⟩ 1 0 (fun i => ⟨i⟩) [3, 3] 0 none
      [] = some _ := runHandChecked_of_isSome (by decide +kernel)
  exact ⟨p, hp, (caps_kept_iff hhand hp).mpr (of_decide_eq_true hwithin)⟩

/-- With 100 chips each it may raise, from 4 up to 3, and go all-in for 100, where the cap
is 6. -/
theorem caps_not_kept : ∃ p ∈ promptsOf (potLimitHand 100),
    p.2.legalActions.canRaise ∧ p.2.legalActions.minRaise = 4 ∧ p.2.legalActions.maxRaise = 3 ∧
      p.1.potCap = 6 ∧ ¬ p.1.KeepsCaps ⟨⟨.potLimit, 1, 2, 0⟩, ⟨fun _ => 0⟩⟩ p.2.legalActions := by
  have hany : (promptsOf (potLimitHand 100)).any fun p =>
      p.2.legalActions.canRaise ∧ p.2.legalActions.minRaise = 4 ∧
        p.2.legalActions.maxRaise = 3 ∧ p.1.potCap = 6 := by
    decide +kernel
  obtain ⟨p, hp, hlegal⟩ := List.any_eq_true.mp hany
  obtain ⟨hraise, hmin, hmax, hcap⟩ := of_decide_eq_true hlegal
  refine ⟨p, hp, hraise, hmin, hmax, hcap, fun hkeeps => ?_⟩
  have hle := hkeeps.minRaise_le rfl hraise
  omega

end VibePoker.Game
