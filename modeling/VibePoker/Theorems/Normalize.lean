import VibePoker.Game.Prompts

/-!
# What normalisation lets through

The engine rewrites an agent's answer before it applies it, but only raises are
looked at: one that takes the whole stack becomes an all-in, one below the minimum
a call or a check. Every other answer is applied as it is, whether it was offered
or not.

## Main definitions

* `Decision.Settles` — the answers that end up among the offered actions

## Main results

* `normalized_legal_iff` — which answers are applied as an offered action
* `normalized_not_legal` — a check of a seat that owes chips
-/

namespace VibePoker.Game

open VibePoker.Core

variable {n : ℕ} {e : Engine}

/-- The answer is an offered action, or a raise that is rewritten to one: it takes
the whole stack, or is below the minimum raise of a seat that can call. -/
def Decision.Settles (e : Engine) (d : Decision n) (raw : Action) : Prop :=
  d.legal e raw ∨ ∃ amount, raw = .raise amount ∧
    ((d.state.players d.seat).stack ≤ amount - (d.state.players d.seat).betThisStreet ∨
      (amount < d.state.currentBet + d.state.minRaiseIncrement ∧
        d.state.currentBet - (d.state.players d.seat).betThisStreet <
          (d.state.players d.seat).stack))

/-- An all-in is offered to every seat with chips. -/
theorem Decision.legal_allIn {d : Decision n} (hstack : 0 < (d.state.players d.seat).stack) :
    d.legal e .allIn :=
  decide_eq_true hstack

/-- A check is offered to a seat that owes nothing. -/
theorem Decision.legal_check {d : Decision n} :
    d.legal e .check ↔ d.state.currentBet - (d.state.players d.seat).betThisStreet = 0 :=
  decide_eq_true_iff

/-- A call is offered to a seat that has more than it owes. -/
theorem Decision.legal_call {d : Decision n} :
    d.legal e .call ↔ 0 < d.state.currentBet - (d.state.players d.seat).betThisStreet ∧
      d.state.currentBet - (d.state.players d.seat).betThisStreet <
        (d.state.players d.seat).stack :=
  decide_eq_true_iff

/-- No raise below the minimum is offered. -/
theorem Decision.not_legal_raise {d : Decision n} {amount : ℕ}
    (hshort : amount < d.state.currentBet + d.state.minRaiseIncrement) :
    ¬ d.legal e (.raise amount) := by
  intro hlegal
  simp only [Decision.legal, LegalActions.isLegal, Bool.and_eq_true, decide_eq_true_eq] at hlegal
  exact absurd hlegal.1.2 (Nat.not_le.mpr hshort)

/-- Whether an answer is applied as an offered action. -/
theorem Decision.legal_normalizeAction {d : Decision n}
    (hstack : 0 < (d.state.players d.seat).stack) (raw : Action) :
    d.legal e (Engine.normalizeAction d.state d.seat raw) ↔ d.Settles e raw := by
  cases raw with
  | raise amount =>
    simp only [Engine.normalizeAction, Decision.Settles, Action.raise.injEq, exists_eq_left']
    split_ifs with hall hshort howed
    · exact iff_of_true (Decision.legal_allIn hstack) (Or.inr (Or.inl hall))
    · refine iff_of_true (Decision.legal_check.mpr howed) (Or.inr (Or.inr ⟨hshort, ?_⟩))
      rw [howed]
      exact hstack
    · -- a short raise of a seat that owes chips becomes a call
      rw [Decision.legal_call]
      constructor
      · intro hcall
        exact Or.inr (Or.inr ⟨hshort, hcall.2⟩)
      · rintro (hlegal | hlarge | ⟨-, hless⟩)
        · exact absurd hlegal (Decision.not_legal_raise hshort)
        · exact absurd hlarge hall
        · exact ⟨Nat.pos_of_ne_zero howed, hless⟩
    · constructor
      · exact Or.inl
      · rintro (hlegal | hlarge | ⟨hless, -⟩)
        · exact hlegal
        · exact absurd hlarge hall
        · exact absurd hless hshort
  | _ => simp [Engine.normalizeAction, Decision.Settles]

section Hand

variable {handId deckSeed : ℕ} {order : Fin 52 → Card} {startingStacks : List ℕ} {dealer : ℕ}
  {seatKinds : Option (List SeatKind)} {answers : List Action}
  {d : Decision startingStacks.length} {obs : Observation}

/-- At every prompt of a hand, the action that is applied is one of those offered
exactly if the answer was, or was a raise that is rewritten to one of them. -/
theorem normalized_legal_iff (h : (d, obs) ∈ promptsOf
    (runHand e handId deckSeed order startingStacks dealer seatKinds answers).1) (raw : Action) :
    obs.legalActions.isLegal (Engine.normalizeAction d.state d.seat raw) ↔ d.Settles e raw := by
  obtain ⟨deck, hplaying⟩ := playing_of_prompt h
  rw [legalActions_of_prompt h]
  exact Decision.legal_normalizeAction hplaying.stack_pos raw

end Hand

/-- Two players with 100 chips each, blinds of 1 and 2. -/
def twoPlayers (answers : List Action) : List (Output 2) :=
  (runHand ⟨⟨.noLimit, 1, 2, 0⟩, ⟨fun _ => 0⟩⟩ 1 0 (fun i => ⟨i⟩) [100, 100] 0 none answers).1

/-- The first prompt of the hand: offered actions are applied as they are, a raise that is too
small becomes a call, and one that is too large an all-in. -/
theorem normalized_legal_two_players :
    ∃ p ∈ promptsOf (twoPlayers []), ∀ raw ∈
        [Action.fold, .call, .raise 1, .raise 3, .raise 4, .raise 99, .raise 100, .raise 500,
          .allIn],
      p.2.legalActions.isLegal (Engine.normalizeAction p.1.state p.1.seat raw) := by
  have hfirst : (promptsOf (twoPlayers [])).any fun p =>
      (∀ raw ∈ [Action.fold, .call, .raise 4, .raise 99, .allIn],
        p.1.legal ⟨⟨.noLimit, 1, 2, 0⟩, ⟨fun _ => 0⟩⟩ raw) ∧
      p.1.state.currentBet = 2 ∧ p.1.state.minRaiseIncrement = 2 ∧
        (p.1.state.players p.1.seat).stack = 99 ∧
        (p.1.state.players p.1.seat).betThisStreet = 1 := by
    decide +kernel
  obtain ⟨p, hp, hcond⟩ := List.any_eq_true.mp hfirst
  obtain ⟨hoffered, hbet, hincrement, hstack, hstreet⟩ := of_decide_eq_true hcond
  refine ⟨p, hp, fun raw hraw => (normalized_legal_iff hp raw).mpr ?_⟩
  by_cases hmem : raw ∈ [Action.fold, .call, .raise 4, .raise 99, .allIn]
  · exact Or.inl (hoffered raw hmem)
  · obtain ⟨amount, rfl, hamount⟩ :
        ∃ amount, raw = .raise amount ∧ (amount < 4 ∨ 100 ≤ amount) := by
      simp only [List.mem_cons, List.not_mem_nil, or_false] at hraw hmem
      rcases hraw with rfl | rfl | rfl | rfl | rfl | rfl | rfl | rfl | rfl <;> simp at hmem ⊢
    exact Or.inr ⟨amount, rfl, by omega⟩

/-- The small blind owes a chip, and its check goes through. -/
theorem normalized_not_legal :
    ¬ ∀ p ∈ promptsOf (twoPlayers []), ∀ raw,
      p.2.legalActions.isLegal (Engine.normalizeAction p.1.state p.1.seat raw) := by
  intro hall
  have hcheck : (promptsOf (twoPlayers [])).any fun p =>
      !p.2.legalActions.isLegal (Engine.normalizeAction p.1.state p.1.seat .check) := by
    decide +kernel
  obtain ⟨p, hp, hillegal⟩ := List.any_eq_true.mp hcheck
  rw [hall p hp .check] at hillegal
  cases hillegal

end VibePoker.Game
