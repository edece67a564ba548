import VibePoker.Game.Prompts

/-!
# The right to raise

A seat that has responded since the last full raise may not raise. The flag keeps
it from answering with a raise, but not from going all-in, which raises the bet
whenever the seat holds more than it owes.

## Main definitions

* `Decision.LeavesBet` — an answer that raises nothing

## Main results

* `no_raise_iff` — the answers of such a seat that raise nothing
* `all_in_raises` — an all-in that does
-/

namespace VibePoker.Game

open VibePoker.Core

variable {n : ℕ} {e : Engine}

/-- What the seat of a decision owes. -/
def Decision.owed (d : Decision n) : ℕ :=
  d.state.currentBet - (d.state.players d.seat).betThisStreet

/-- The answer neither raises the bet nor makes others respond again; the seat puts
in at most what it owes. -/
structure Decision.LeavesBet (d : Decision n) (raw : Action) : Prop where
  currentBet_eq : (d.acted raw).currentBet = d.state.currentBet
  minRaise_eq : (d.acted raw).minRaiseIncrement = d.state.minRaiseIncrement
  responded_eq : ∀ i, i ≠ d.seat → d.respondedAfter raw i = d.hasResponded i
  pays_le : ((d.acted raw).players d.seat).totalCommitted ≤
    (d.state.players d.seat).totalCommitted + d.owed

/-- Without a raise, the others keep their flags. -/
theorem respond_of_ne {hasResponded : Fin n → Bool} {seat i : Fin n} (h : i ≠ seat) :
    Engine.respond hasResponded seat false i = hasResponded i := by
  simp [Engine.respond, h]

theorem Decision.leavesBet_fold (d : Decision n) : d.LeavesBet .fold where
  currentBet_eq := rfl
  minRaise_eq := rfl
  responded_eq _ h := respond_of_ne h
  pays_le := by simp [Decision.acted, Engine.normalizeAction, Engine.performAction]

theorem Decision.leavesBet_check (d : Decision n) : d.LeavesBet .check where
  currentBet_eq := rfl
  minRaise_eq := rfl
  responded_eq _ h := respond_of_ne h
  pays_le := Nat.le_add_right _ _

theorem Decision.leavesBet_call (d : Decision n) : d.LeavesBet .call where
  currentBet_eq := rfl
  minRaise_eq := rfl
  responded_eq _ h := respond_of_ne h
  pays_le := by
    simp only [Decision.acted, Engine.normalizeAction, Engine.performAction, setPlayer_self,
      PlayerState.putAllIn_committed, PlayerState.put_committed, Decision.owed]
    omega

/-- An all-in of more than the seat owes raises the bet. -/
theorem Decision.not_leavesBet_allIn {d : Decision n}
    (hmore : d.owed < (d.state.players d.seat).stack) : ¬ d.LeavesBet .allIn := by
  intro h
  have hbet := h.currentBet_eq
  have htotal : d.state.currentBet <
      (d.state.players d.seat).betThisStreet + (d.state.players d.seat).stack := by
    rw [Decision.owed] at hmore
    omega
  simp only [Decision.acted, Engine.normalizeAction, Engine.performAction,
    PlayerState.put_bet, min_self] at hbet
  rw [if_pos htotal] at hbet
  split at hbet <;> exact absurd hbet htotal.ne'

/-- A raise is not offered to a seat that has responded. -/
theorem Decision.not_legal_raise_of_responded {d : Decision n}
    (hresponded : d.hasResponded d.seat) (amount : ℕ) : ¬ d.legal e (.raise amount) := by
  intro hlegal
  simp [Decision.legal, LegalActions.isLegal, Engine.computeLegalActions, hresponded] at hlegal

section Hand

variable {handId deckSeed : ℕ} {order : Fin 52 → Card} {startingStacks : List ℕ} {dealer : ℕ}
  {seatKinds : Option (List SeatKind)} {answers : List Action}
  {d : Decision startingStacks.length} {obs : Observation}

/-- Of a seat that has responded since the last full raise and holds more than it
owes, every legal answer but an all-in leaves the bet as it is. -/
theorem no_raise_iff (h : (d, obs) ∈ promptsOf
      (runHand e handId deckSeed order startingStacks dealer seatKinds answers).1)
    (hresponded : d.hasResponded d.seat) (hmore : d.owed < (d.state.players d.seat).stack)
    {raw : Action} (hlegal : obs.legalActions.isLegal raw) :
    d.LeavesBet raw ↔ raw ≠ .allIn := by
  rw [legalActions_of_prompt h] at hlegal
  cases raw with
  | fold => exact iff_of_true d.leavesBet_fold (by simp)
  | check => exact iff_of_true d.leavesBet_check (by simp)
  | call => exact iff_of_true d.leavesBet_call (by simp)
  | raise amount => exact absurd hlegal (Decision.not_legal_raise_of_responded hresponded amount)
  | allIn => exact iff_of_false (Decision.not_leavesBet_allIn hmore) (by simp)

end Hand

/-! ## A short all-in -/

/-- Seat 0 raises to 10, seat 1 goes all-in for 12, seat 2 calls: a short all-in. -/
def shortAllIn (answers : List Action) : List (Output 3) :=
  (runHand ⟨⟨.noLimit, 1, 2, 0⟩, ⟨fun _ => 0⟩⟩ 1 0 (fun i => ⟨i⟩) [100, 12, 100] 0 none
    (.raise 10 :: .allIn :: .call :: answers)).1

/-- The prompt is one to a seat that has responded, for which `action` is legal. -/
def asksAgain (action : Action) (p : Decision n × Observation) : Bool :=
  p.1.hasResponded p.1.seat && p.1.owed < (p.1.state.players p.1.seat).stack &&
    p.2.legalActions.isLegal action

theorem exists_asksAgain {action : Action}
    (h : (promptsOf (shortAllIn [])).any (asksAgain action)) :
    ∃ p ∈ promptsOf (shortAllIn []), p.1.hasResponded p.1.seat ∧
      p.1.owed < (p.1.state.players p.1.seat).stack ∧ p.2.legalActions.isLegal action := by
  obtain ⟨p, hp, htest⟩ := List.any_eq_true.mp h
  simp only [asksAgain, Bool.and_eq_true, decide_eq_true_eq] at htest
  exact ⟨p, hp, htest.1.1, htest.1.2, htest.2⟩

/-- Seat 0 is asked again, and may call. -/
theorem no_raise_short_all_in : ∃ p ∈ promptsOf (shortAllIn []), p.1.LeavesBet .call := by
  obtain ⟨p, hp, hresponded, hmore, hlegal⟩ :=
    @exists_asksAgain .call (by decide +kernel)
  exact ⟨p, hp, (no_raise_iff hp hresponded hmore hlegal).mpr (by simp)⟩

/-- It may also go all-in, which raises the bet to 100. -/
theorem all_in_raises :
    ¬ ∀ p ∈ promptsOf (shortAllIn []), ∀ raw, p.1.hasResponded p.1.seat →
      p.1.owed < (p.1.state.players p.1.seat).stack → p.2.legalActions.isLegal raw →
        p.1.LeavesBet raw := by
  intro hall
  obtain ⟨p, hp, hresponded, hmore, hlegal⟩ :=
    @exists_asksAgain .allIn (by decide +kernel)
  exact Decision.not_leavesBet_allIn hmore (hall p hp .allIn hresponded hmore hlegal)

end VibePoker.Game
