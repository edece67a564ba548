import VibePoker.Client.Run

/-!
# The messages of a hand

A seat is sent the events of its table and its prompts. Of the events, only the start and
the end of a hand touch what is shown of a prompt.

## Main definitions

* `InHand` — the messages of a hand
* `Quiet` — changes of the hand that leave its prompt alone

## Main results

* `projectEngineEvent_quiet` — the events between the start and the end are quiet
-/

namespace VibePoker.Client

open VibePoker.Game VibePoker.Net

/-- The messages of a hand that a seat is sent, and that its replay buffer keeps. -/
inductive InHand (tableId : ℕ) : ServerMessage → Prop
  | event (ev : EngineEvent) : InHand tableId (.tableEvent tableId ev)
  | prompt (promptTable handId seat : ℕ) (legal : LegalActions) (deadlineMs : ℕ) :
    InHand tableId (.prompt promptTable handId seat legal deadlineMs)

/-- A change of the hand that has nothing to do with its prompt. -/
structure Quiet (f : CurrentHand → CurrentHand) : Prop where
  submitted : ∀ hand, f (ClientCore.submitted hand) = ClientCore.submitted (f hand)
  awaiting : ∀ hand, (f hand).awaitingAction = hand.awaitingAction
  legal : ∀ hand, (f hand).legalActions = hand.legalActions
  deadline : ∀ hand, (f hand).actionDeadlineMs = hand.actionDeadlineMs
  handId : ∀ hand, (f hand).handId = hand.handId

section Table

variable {tableId seat : ℕ} {core : ClientCore}

theorem isSeatedAt_of_phase (h : core.view.phase = .seated tableId seat) :
    core.view.isSeatedAt tableId = true := by
  rw [ClientView.isSeatedAt, h]
  exact decide_eq_true rfl

/-- The event begins or ends a hand. -/
def bounds : EngineEvent → Bool
  | .handStarted _ _ _ | .handEnded _ _ => true
  | _ => false

theorem quiet_actionTaken (seat : ℕ) (action : Action) (potTotal : ℕ) :
    Quiet (ClientCore.actionTaken · seat action potTotal) := by
  constructor <;> intro hand <;> cases action <;> rfl

/-- Any other event changes the hand and leaves its prompt alone. -/
theorem projectEngineEvent_quiet (tableId seat : ℕ) {ev : EngineEvent} (hev : bounds ev = false) :
    ∃ f, Quiet f ∧ ∀ core : ClientCore, core.view.phase = .seated tableId seat →
      core.projectEngineEvent tableId ev = { core with view := core.view.updateHand f } := by
  cases ev with
  | handStarted | handEnded => cases hev
  | holeCardsDealt dealt cards =>
    -- the cards of another seat are not shown
    refine ⟨fun hand => if seat = dealt then
      { hand with holeCards := some (cards.1.index, cards.2.index) } else hand, ?_,
      fun core hphase => ?_⟩
    · constructor <;> intro hand <;> split <;> rfl
    · rw [ClientCore.projectEngineEvent, if_pos (isSeatedAt_of_phase hphase)]
      have hour : core.view.ourSeat = some seat := by rw [ClientView.ourSeat, hphase]
      by_cases hseat : seat = dealt
      · simp only [hour, hseat, if_true]
      · simp [hour, hseat, ClientView.updateHand]
  | boardDealt street cards =>
    refine ⟨fun hand => { hand with
      street := street
      board := hand.board ++ cards.map fun card => (card.index : ℕ)
      betThisStreet := [] }, by constructor <;> exact fun _ => rfl, fun core hphase => ?_⟩
    rw [ClientCore.projectEngineEvent, if_pos (isSeatedAt_of_phase hphase)]
  | actionTaken actor action potTotal =>
    refine ⟨_, quiet_actionTaken actor action potTotal, fun core hphase => ?_⟩
    rw [ClientCore.projectEngineEvent, if_pos (isSeatedAt_of_phase hphase)]
  | playerAllIn actor totalCommitted =>
    refine ⟨fun hand => { hand with
      allInSeats := if actor ∈ hand.allInSeats then hand.allInSeats
        else hand.allInSeats ++ [actor]
      betThisStreet := updateBet hand.betThisStreet actor totalCommitted },
      by constructor <;> exact fun _ => rfl, fun core hphase => ?_⟩
    rw [ClientCore.projectEngineEvent, if_pos (isSeatedAt_of_phase hphase)]

theorem stillAwaiting_updateHand {f : CurrentHand → CurrentHand} (hf : Quiet f)
    (core : ClientCore) :
    { core with view := core.view.updateHand f }.stillAwaiting = core.stillAwaiting := by
  simp only [ClientCore.stillAwaiting, ClientView.updateHand]
  cases core.view.currentHand with
  | none => rfl
  | some hand => exact hf.awaiting hand

theorem handleInbound_prompt (core : ClientCore) (promptTable handId seat : ℕ)
    (legal : LegalActions) (deadlineMs : ℕ) :
    (ClientCore.handleInbound (.prompt promptTable handId seat legal deadlineMs) core).1 =
      { core with
        view := { core.view.updateHand (ClientCore.prompted legal deadlineMs) with
          lastActionRejection := none }
        activePrompt := some ⟨promptTable, handId, seat, legal⟩ } := by
  rw [ClientCore.handleInbound]

theorem handleInbound_event (core : ClientCore) (tableId : ℕ) (ev : EngineEvent) :
    (ClientCore.handleInbound (.tableEvent tableId ev) core).1 =
      core.projectEngineEvent tableId ev := by
  rw [ClientCore.handleInbound]

theorem isSome_of_stillAwaiting (h : core.stillAwaiting = true) :
    core.view.currentHand.isSome = true := by
  rw [ClientCore.stillAwaiting] at h
  cases hhand : core.view.currentHand with
  | none => simp [hhand] at h
  | some => rfl

theorem handleSubmitAction_of_not_awaiting (h : core.stillAwaiting = false) (action : Action) :
    core.handleSubmitAction action = (core, []) := by
  rw [ClientCore.handleSubmitAction, h]
  rfl

end Table

end VibePoker.Client
