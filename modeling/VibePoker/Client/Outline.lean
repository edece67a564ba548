import VibePoker.Client.Core

/-!
# Prompts in the client's state

Whether a prompt is shown, and can be answered, depends on four things: where the
client is, whether a hand is in flight, whether that hand awaits the player, and the
prompt that is kept. The messages act on these four alone.

## Main definitions

* `Outline` — the four of them
* `Outline.Alike` — outlines that differ by a prompt that was put away

## Main results

* `outline_handleInbound` — the client's state machine acts on outlines
* `Outline.Alike.receive` — what later messages make of a prompt that was put away
-/

namespace VibePoker.Client

open VibePoker.Core VibePoker.Game VibePoker.Net

structure Outline where
  phase : Phase
  inHand : Bool
  awaiting : Bool
  prompt : Option ActivePrompt

def ClientCore.outline (core : ClientCore) : Outline :=
  ⟨core.view.phase, core.view.currentHand.isSome, core.stillAwaiting, core.activePrompt⟩

namespace Outline

/-- Nothing but the place. -/
def blank (phase : Phase) : Outline := ⟨phase, false, false, none⟩

def isSeatedAt (o : Outline) (tableId : ℕ) : Bool :=
  match o.phase with
  | .seated t _ => t = tableId
  | _ => false

theorem isSeatedAt_congr {o o' : Outline} (h : o'.phase = o.phase) (tableId : ℕ) :
    o'.isSeatedAt tableId = o.isSeatedAt tableId := by
  rw [isSeatedAt, isSeatedAt, h]

/-- An event of a table. -/
def event (o : Outline) (tableId : ℕ) (ev : EngineEvent) : Outline :=
  if o.isSeatedAt tableId then
    match ev with
    | .handStarted _ _ _ => { blank o.phase with inHand := true }
    | .handEnded _ _ => blank o.phase
    | .holeCardsDealt _ _ | .boardDealt _ _ | .actionTaken _ _ _ | .playerAllIn _ _ => o
  else o

mutual

def inbound : ServerMessage → Outline → Outline
  | .welcome _ _ _ _ _, o => { o with phase := .lobby }
  | .rejected _ reason, o => { o with phase := .ended reason }
  | .goodbye reason, _ => blank (.ended reason)
  | .heartbeat, o | .tableList _, o | .tableState _ _ _, o => o
  | .joinedTable tableId seat _, _ => blank (.seated tableId seat)
  | .leftTable _, _ => blank .lobby
  | .tableEvent tableId ev, o => o.event tableId ev
  | .prompt tableId handId seat legal _, o =>
    { o with awaiting := o.inHand, prompt := some ⟨tableId, handId, seat, legal⟩ }
  | .actionRejected _, o => if o.prompt.isSome then { o with awaiting := o.inHand } else o
  | .replayEvents _ events, o => replay events o

def replay : List ServerMessage → Outline → Outline
  | [], o => o
  | msg :: msgs, o => replay msgs (inbound msg o)

end

end Outline

/-! ## The state machine on outlines -/

theorem outline_updateHand (core : ClientCore) {f : CurrentHand → CurrentHand}
    (hf : ∀ hand, (f hand).awaitingAction = hand.awaitingAction) :
    { core with view := core.view.updateHand f }.outline = core.outline := by
  simp only [ClientCore.outline, ClientCore.stillAwaiting, ClientView.updateHand]
  cases core.view.currentHand with
  | none => rfl
  | some hand => simp [hf]

theorem betTaken_awaiting (hand : CurrentHand) (seat : ℕ) (action : Action) :
    (ClientCore.betTaken hand seat action).awaitingAction = hand.awaitingAction := by
  cases action <;> rfl

theorem outline_projectEngineEvent (core : ClientCore) (tableId : ℕ) (ev : EngineEvent) :
    (core.projectEngineEvent tableId ev).outline = core.outline.event tableId ev := by
  have hseated : core.outline.isSeatedAt tableId = core.view.isSeatedAt tableId := rfl
  unfold ClientCore.projectEngineEvent Outline.event
  rw [hseated]
  split
  · cases ev with
    | handStarted | handEnded => rfl
    | holeCardsDealt seat cards =>
      dsimp only
      split
      · exact outline_updateHand core fun _ => rfl
      · rfl
    | actionTaken seat action potTotal =>
      exact outline_updateHand core fun hand => betTaken_awaiting _ seat action
    | boardDealt | playerAllIn => exact outline_updateHand core fun _ => rfl
  · rfl

mutual

/-- A message does to the outline of the client what it does to the client. -/
theorem outline_handleInbound (msg : ServerMessage) (core : ClientCore) :
    (ClientCore.handleInbound msg core).1.outline = core.outline.inbound msg := by
  cases msg with
  | heartbeat => simp only [ClientCore.handleInbound, Outline.inbound]
  | welcome | rejected | goodbye | tableList | joinedTable | leftTable =>
    simp only [ClientCore.handleInbound, Outline.inbound]
    rfl
  | tableState tableId seats button =>
    simp only [ClientCore.handleInbound, Outline.inbound]
    split <;> rfl
  | tableEvent tableId ev =>
    simp only [ClientCore.handleInbound, Outline.inbound]
    exact outline_projectEngineEvent core tableId ev
  | prompt tableId handId seat legal deadlineMs =>
    simp only [ClientCore.handleInbound, Outline.inbound]
    cases hhand : core.view.currentHand <;>
      simp [ClientCore.outline, ClientCore.stillAwaiting, ClientView.updateHand, hhand,
        ClientCore.prompted]
  | actionRejected reason =>
    simp only [ClientCore.handleInbound, Outline.inbound]
    cases hprompt : core.activePrompt <;> cases hhand : core.view.currentHand <;>
      simp [ClientCore.outline, ClientCore.stillAwaiting, ClientView.updateHand, hhand, hprompt,
        ClientCore.rearmed]
  | replayEvents handId events =>
    simp only [ClientCore.handleInbound, Outline.inbound]
    exact outline_handleReplay events core

theorem outline_handleReplay (msgs : List ServerMessage) (core : ClientCore) :
    (ClientCore.handleReplay msgs core).1.outline = core.outline.replay msgs := by
  cases msgs with
  | nil => simp only [ClientCore.handleReplay, Outline.replay]
  | cons msg msgs =>
    simp only [ClientCore.handleReplay, Outline.replay]
    rw [outline_handleReplay msgs, outline_handleInbound msg]

end

namespace Outline

def receive (o : Outline) (msgs : List ServerMessage) : Outline :=
  msgs.foldl (fun o msg => o.inbound msg) o

@[simp] theorem receive_nil (o : Outline) : o.receive [] = o := rfl

@[simp] theorem receive_append (o : Outline) (msgs later : List ServerMessage) :
    o.receive (msgs ++ later) = (o.receive msgs).receive later := List.foldl_append

@[simp] theorem receive_cons (o : Outline) (msg : ServerMessage) (msgs : List ServerMessage) :
    o.receive (msg :: msgs) = (o.inbound msg).receive msgs := rfl

end Outline

/-! ## Submitting -/

/-- An action is sent if the hand awaits it and the prompt allows it, and ignored
otherwise. -/
theorem handleSubmitAction_cases (core : ClientCore) (action : Action) :
    core.handleSubmitAction action = (core, []) ∨
      ∃ prompt, core.activePrompt = some prompt ∧ prompt.legal.isLegal action = true ∧
        (core.handleSubmitAction action).1.outline = { core.outline with awaiting := false } ∧
        (core.handleSubmitAction action).2 =
          [.send (.submitAction prompt.tableId prompt.handId action)] := by
  unfold ClientCore.handleSubmitAction
  split
  · split
    · exact Or.inl rfl
    · rename_i prompt hprompt
      split
      · rename_i hlegal
        refine Or.inr ⟨prompt, hprompt, hlegal, ?_, rfl⟩
        cases hhand : core.view.currentHand <;>
          simp [ClientCore.outline, ClientCore.stillAwaiting, ClientView.updateHand, hhand,
            ClientCore.submitted]
      · exact Or.inl rfl
  · exact Or.inl rfl

theorem handleSubmitAction_of_awaiting {core : ClientCore} {prompt : ActivePrompt}
    {action : Action} (hawaiting : core.stillAwaiting = true)
    (hprompt : core.activePrompt = some prompt) (hlegal : prompt.legal.isLegal action = true) :
    (core.handleSubmitAction action).2 =
      [.send (.submitAction prompt.tableId prompt.handId action)] := by
  simp [ClientCore.handleSubmitAction, hawaiting, hprompt, hlegal]

/-! ## Prompts that were put away -/

namespace Outline

/-- The same but for a prompt that one of the two may have put away: then it is `p`. -/
structure Alike (p : Option ActivePrompt) (o o' : Outline) : Prop where
  phase : o'.phase = o.phase
  inHand : o'.inHand = o.inHand
  prompt : o'.prompt = o.prompt
  awaiting : o'.awaiting = o.awaiting ∨ o.prompt = p

theorem Alike.refl (p : Option ActivePrompt) (o : Outline) : Alike p o o :=
  ⟨rfl, rfl, rfl, Or.inl rfl⟩

theorem Alike.event {p : Option ActivePrompt} {o o' : Outline} (h : Alike p o o')
    (tableId : ℕ) (ev : EngineEvent) : Alike p (o.event tableId ev) (o'.event tableId ev) := by
  unfold Outline.event
  rw [isSeatedAt_congr h.phase, h.phase]
  split
  · cases ev with
    | handStarted | handEnded => exact .refl p _
    | holeCardsDealt | boardDealt | actionTaken | playerAllIn => exact h
  · exact h

mutual

/-- A message leaves the prompt put away, shows it again, or brings another one. -/
theorem Alike.inbound {p : Option ActivePrompt} {o o' : Outline} (h : Alike p o o')
    (msg : ServerMessage) : Alike p (o.inbound msg) (o'.inbound msg) := by
  cases msg with
  | welcome | rejected =>
    simp only [Outline.inbound]
    exact ⟨rfl, h.inHand, h.prompt, h.awaiting⟩
  | goodbye | joinedTable | leftTable =>
    simp only [Outline.inbound]
    exact .refl p _
  | heartbeat | tableList | tableState =>
    simp only [Outline.inbound]
    exact h
  | tableEvent tableId ev =>
    simp only [Outline.inbound]
    exact h.event tableId ev
  | prompt tableId handId seat legal deadlineMs =>
    simp only [Outline.inbound]
    exact ⟨h.phase, h.inHand, rfl, Or.inl h.inHand⟩
  | actionRejected reason =>
    simp only [Outline.inbound, h.prompt]
    split
    · exact ⟨h.phase, h.inHand, rfl, Or.inl h.inHand⟩
    · exact h
  | replayEvents handId events =>
    simp only [Outline.inbound]
    exact h.replay events

theorem Alike.replay {p : Option ActivePrompt} {o o' : Outline} (h : Alike p o o')
    (msgs : List ServerMessage) : Alike p (o.replay msgs) (o'.replay msgs) := by
  cases msgs with
  | nil =>
    simp only [Outline.replay]
    exact h
  | cons msg msgs =>
    simp only [Outline.replay]
    exact (h.inbound msg).replay msgs

end

theorem Alike.receive {p : Option ActivePrompt} {o o' : Outline} (h : Alike p o o')
    (msgs : List ServerMessage) : Alike p (o.receive msgs) (o'.receive msgs) := by
  induction msgs generalizing o o' with
  | nil => exact h
  | cons msg msgs ih => exact ih (h.inbound msg)

end Outline

end VibePoker.Client
