import VibePoker.Client.InHand

/-!
# The prompts of a seat

What the messages of a server, and the answers that were sent, say of the prompts of a
seat: which prompt of the hand came last, and whether it still stands. The client keeps
none of this; it keeps what it shows.

A server sends the same message for the rejection of an answer and for that of any other
request. Which one it is comes with the message here.

## Main definitions

* `Dialogue` — the hand of the seat, and its last prompt
* `Dialogue.entry` — what an input adds to it
* `AwaitsPrompt` — the client awaits the player while the last prompt stands, and shows it
-/

namespace VibePoker.Client

open VibePoker.Game VibePoker.Net

/-- What became of a prompt. -/
inductive PromptStatus
  | standing
  | answered
  /-- The seat has acted, with or without an answer. -/
  | overtaken
deriving DecidableEq

/-- Of two accounts of a prompt, the one that knows more. -/
def PromptStatus.later : PromptStatus → PromptStatus → PromptStatus
  | .standing, status | status, .standing => status
  | .answered, status | status, .answered => status
  | .overtaken, .overtaken => .overtaken

/-- A prompt as it was sent. -/
structure SentPrompt where
  handId : ℕ
  legal : LegalActions
  deadlineMs : ℕ
deriving DecidableEq

/-- The table and the seat of the player, the hand that was started there, and its prompts:
the last one, their number, and what became of the last one. -/
structure Dialogue where
  seat : Option (ℕ × ℕ)
  hand : Option ℕ
  last : Option SentPrompt
  prompts : ℕ
  status : PromptStatus
deriving DecidableEq

namespace Dialogue

/-- No seat. -/
def empty : Dialogue := ⟨none, none, none, 0, .standing⟩

/-- Another hand, or none, at the same seat. -/
def begin (d : Dialogue) (hand : Option ℕ) : Dialogue := ⟨d.seat, hand, none, 0, .standing⟩

/-- The last prompt of the hand was neither answered nor overtaken. -/
def stands (d : Dialogue) : Bool := d.last.isSome && d.status = .standing

/-- An event of a table. -/
def event (d : Dialogue) (tableId : ℕ) (ev : EngineEvent) : Dialogue :=
  match d.seat with
  | none => d
  | some (table, seat) =>
    if table = tableId then
      match ev with
      | .handStarted handId _ _ => d.begin (some handId)
      | .handEnded _ _ => d.begin none
      | .actionTaken actor _ _ => if actor = seat then { d with status := .overtaken } else d
      | .holeCardsDealt _ _ | .boardDealt _ _ | .playerAllIn _ _ => d
    else d

/-- A message that is neither a rejection nor a replay. -/
def message (d : Dialogue) : ServerMessage → Dialogue
  | .joinedTable tableId seat _ => { d.begin none with seat := some (tableId, seat) }
  | .leftTable _ | .goodbye _ => empty
  | .tableEvent tableId ev => d.event tableId ev
  | .prompt _ handId _ legal deadlineMs =>
    if d.hand = some handId then
      { d with
        last := some ⟨handId, legal, deadlineMs⟩
        prompts := d.prompts + 1
        status := .standing }
    else d
  | .welcome _ _ _ _ _ | .rejected _ _ | .tableList _ | .tableState _ _ _ | .heartbeat
  | .actionRejected _ | .replayEvents _ _ => d

/-- A rejection, of the answer or of another request. -/
def rejected (d : Dialogue) (ofAnswer : Bool) : Dialogue :=
  if ofAnswer ∧ d.status = .answered then { d with status := .standing } else d

/-- The messages of a replay, were they live. -/
def heard (d : Dialogue) (events : List ServerMessage) : Dialogue := events.foldl message d

/-- A replay of the same hand does not undo what became of its last prompt, also if it was
taken before that prompt was recorded. -/
def replayed (d : Dialogue) (events : List ServerMessage) : Dialogue :=
  let live := d.heard events
  if live.hand = none ∨ live.hand ≠ d.hand then live
  else if live.prompts < d.prompts then d
  else if live.prompts = d.prompts then { live with status := d.status.later live.status }
  else live

end Dialogue

/-- An answer to a prompt was sent. -/
def Entry.submits (entry : Entry) : Bool :=
  entry.effects.any fun
    | .send (.submitAction _ _ _) => true
    | _ => false

/-- What an input adds, with its effects; `ofAnswer` says what a rejection rejects. -/
def Dialogue.entry (d : Dialogue) (entry : Entry) (ofAnswer : Bool) : Dialogue :=
  match entry.input with
  | .message (.actionRejected _) => d.rejected ofAnswer
  | .message (.replayEvents _ events) => d.replayed events
  | .message msg => d.message msg
  | .intent .disconnect | .intent (.connectionLost _) => .empty
  | .intent (.submitAction _) =>
    if entry.submits ∧ d.stands then { d with status := .answered } else d
  | .intent _ => d

/-- The hand in flight awaits the player exactly while its last prompt stands, and then it
shows that prompt. -/
structure AwaitsPrompt (core : ClientCore) (d : Dialogue) : Prop where
  awaiting : ∀ hand, core.view.currentHand = some hand →
    (hand.awaitingAction = true ↔ d.stands = true)
  shown : ∀ hand, core.view.currentHand = some hand → hand.awaitingAction = true →
    ∃ prompt, d.last = some prompt ∧ hand.legalActions = some prompt.legal ∧
      hand.actionDeadlineMs = some prompt.deadlineMs ∧ hand.handId = prompt.handId

/-! ## What is shown -/

/-- The hand awaits the player or not, and if so it shows the last prompt, which can be
answered. -/
structure HandShows (core : ClientCore) (hand : CurrentHand) (last : Option SentPrompt)
    (awaits : Bool) : Prop where
  awaiting : hand.awaitingAction = awaits
  shown : awaits = true → ∃ prompt, last = some prompt ∧ hand.legalActions = some prompt.legal ∧
    hand.actionDeadlineMs = some prompt.deadlineMs ∧ hand.handId = prompt.handId ∧
    ∃ active, core.activePrompt = some active ∧ active.legal = prompt.legal

namespace HandShows

variable {core core' : ClientCore} {hand : CurrentHand} {last last' : Option SentPrompt}
  {awaits : Bool}

theorem of_false (h : hand.awaitingAction = false) : HandShows core hand last false :=
  ⟨h, nofun⟩

theorem congr (h : HandShows core hand last awaits)
    (hprompt : core'.activePrompt = core.activePrompt) : HandShows core' hand last awaits where
  awaiting := h.awaiting
  shown hawaits := by
    rw [hprompt]
    exact h.shown hawaits

theorem quiet (h : HandShows core hand last awaits) {f : CurrentHand → CurrentHand}
    (hf : Quiet f) : HandShows core (f hand) last awaits where
  awaiting := (hf.awaiting hand).trans h.awaiting
  shown hawaits := by
    rw [hf.legal, hf.deadline, hf.handId]
    exact h.shown hawaits

/-- A prompt of the hand. -/
theorem prompted (legal : LegalActions) (deadlineMs : ℕ) {handId : ℕ} (hhand : hand.handId = handId)
    {active : ActivePrompt} (hactive : core.activePrompt = some active)
    (hlegal : active.legal = legal) :
    HandShows core (ClientCore.prompted legal deadlineMs hand)
      (some ⟨handId, legal, deadlineMs⟩) true where
  awaiting := rfl
  shown _ := ⟨⟨handId, legal, deadlineMs⟩, rfl, rfl, rfl, hhand, active, hactive, hlegal⟩

end HandShows

end VibePoker.Client
