import VibePoker.CS.Trace
import VibePoker.Server.RemoteAgent
import Mathlib.Logic.Function.Basic

/-!
# One seat and its sessions, lock by lock

During a hand, the agent of a seat and the sessions of its player work on the same
connections at the same time. Here every critical section is a step of its own:
`RemoteAgent::act` takes nine of them, a session that takes the seat over six,
`LeaveTable` five, or three if the player is not at the table it names, and the end of
a session five. `ι` stands for the connections of the player.

A prompt is identified by the number of the `act` call that made it; this stands for
the oneshot channel that the source keeps in `PendingAction`. The hand is in progress
throughout, and the messages to the other seats and the replay buffer are left out.

## Main definitions

* `LiveSeat` — a seat during a hand, with the sessions of its player
* `LiveSeat.step` — one critical section
-/

namespace VibePoker.Server

open VibePoker.Game VibePoker.Net

/-! ## Prompts and answers -/

/-- A pending action with the `act` call that waits for its answer. -/
structure Ask where
  call : ℕ
  prompt : PendingAction
deriving DecidableEq, Repr

/-- The channel between a prompt and its `act` call. -/
inductive Channel
  /-- Both ends are there, and nothing was sent. -/
  | live
  | answered (action : Action)
  /-- The prompt was dropped. -/
  | dropped
  /-- The call stopped waiting. -/
  | closed
deriving DecidableEq, Repr

/-- Why an `act` call returned. -/
inductive Verdict
  | answered (action : Action)
  /-- The connection had departed. -/
  | departed
  /-- The prompt was dropped. -/
  | dropped
  /-- The deadline elapsed. -/
  | elapsed
deriving DecidableEq, Repr

/-- What the engine gets. -/
def Verdict.action : Verdict → Action
  | .answered action => action
  | .departed | .dropped | .elapsed => .fold

/-! ## Where everybody is -/

/-- Where `RemoteAgent::act` is. -/
inductive AgentPhase (ι : Type*)
  | idle
  /-- The connection of the seat was looked up. -/
  | resolved (c : ι) (ask : Ask)
  /-- It had not departed. -/
  | checked (c : ι) (ask : Ask)
  /-- The prompt is in its slot. -/
  | stored (c : ι) (ask : Ask)
  | waiting (ask : Ask)
  /-- No answer came. -/
  | failed (ask : Ask) (verdict : Verdict)
  /-- The slot of this connection is to be cleared. -/
  | clearing (c : ι) (ask : Ask) (verdict : Verdict)
deriving DecidableEq, Repr

/-- Where the session of a connection is. -/
inductive SessionPhase (ι : Type*)
  | offline
  /-- Authenticated; the seat of the player is looked up. -/
  | entered
  /-- Told its seat. -/
  | joined
  /-- The seat's link led to connection `old`. -/
  | found (old : ι)
  /-- The prompt was taken out of the slot of `old`. -/
  | lifted (migrated : Option Ask)
  /-- The link leads here. -/
  | replaced (migrated : Option Ask)
  /-- The prompt is in the slot here. -/
  | restored (migrated : Option Ask)
  /-- In the reader loop. -/
  | reading
  | leaveDeparted
  | leaveDropped
  | leaveMarked
  | leaveRecorded
  /-- Handling `LeaveTable` for a table where the player has no seat. -/
  | strayDeparted
  | strayDropped
  | closeDeparted
  | closeDropped
  /-- The session was not superseded. -/
  | closeKept
  | closeRecorded
  | closed
deriving DecidableEq, Repr

/-- A seat during a hand, with the sessions of its player. -/
structure LiveSeat (ι : Type*) where
  current : ι
  pending : ι → Option Ask
  departed : ι → Bool
  sent : ι → List ServerMessage
  session : ι → SessionPhase ι
  revoked : ι → Bool
  agent : AgentPhase ι
  /-- The prompts of the `act` calls, in order. -/
  asked : List PendingAction
  channel : ℕ → Channel
  /-- How the calls that are over came out. -/
  returned : List (ℕ × Verdict)
  /-- The player is recorded at the table. -/
  member : Bool
  leavePending : Bool

/-- What the table tells its players about the seat. -/
structure SeatContext where
  tableId : ℕ
  seat : ℕ
  seats : List SeatInfo
  deadlineMs : ℕ

/-! ## Critical sections -/

/-- The sections of `RemoteAgent::act`. -/
inductive AgentOp
  | resolve (prompt : PendingAction)
  | check
  | store
  | send
  | receive
  | lose
  | expire
  | resolveAgain
  | clear
deriving DecidableEq, Repr

/-- The sections of a session. -/
inductive SessionOp (ι : Type*)
  | login (old : ι)
  | join
  | lookUp
  | lift
  | replace
  | restore
  | reprompt
  | deliver (tableId handId : ℕ) (action : Action)
  | leaveDepart
  | leaveDrop
  | leaveTable
  | leaveRecord
  | leaveReply
  | strayDepart
  | strayDrop
  | strayReply
  | closeDepart
  | closeDrop
  | closeRead
  | closeRecord
  | closeForce
deriving DecidableEq, Repr

inductive SeatOp (ι : Type*)
  | agent (op : AgentOp)
  | session (c : ι) (op : SessionOp ι)
deriving DecidableEq, Repr

namespace LiveSeat

variable {ι : Type*} [DecidableEq ι]

/-- A hand that starts with the player at connection `c`. -/
def start (c : ι) : LiveSeat ι where
  current := c
  pending := fun _ => none
  departed := fun _ => false
  sent := fun _ => []
  session := fun d => if d = c then .reading else .offline
  revoked := fun _ => false
  agent := .idle
  asked := []
  channel := fun _ => .live
  returned := []
  member := true
  leavePending := false

def trySend (s : LiveSeat ι) (c : ι) (msg : ServerMessage) : LiveSeat ι :=
  { s with sent := Function.update s.sent c (s.sent c ++ [msg]) }

def enter (s : LiveSeat ι) (c : ι) (phase : SessionPhase ι) : LiveSeat ι :=
  { s with session := Function.update s.session c phase }

/-- Drop a prompt: its call is told, if it still waits. -/
def dropSender (channel : ℕ → Channel) : Option Ask → ℕ → Channel
  | none => channel
  | some ask =>
    if channel ask.call = .live then Function.update channel ask.call .dropped else channel

/-- Put something into the slot of a connection; what was there is dropped. -/
def putSlot (s : LiveSeat ι) (c : ι) (ask : Option Ask) : LiveSeat ι :=
  { s with
    pending := Function.update s.pending c ask
    channel := dropSender s.channel (s.pending c) }

/-- Take the prompt out of the slot of a connection. -/
def takeSlot (s : LiveSeat ι) (c : ι) : LiveSeat ι :=
  { s with pending := Function.update s.pending c none }

/-- The `act` call is over. -/
def giveBack (s : LiveSeat ι) (ask : Ask) (verdict : Verdict) : LiveSeat ι :=
  { s with agent := .idle, returned := s.returned ++ [(ask.call, verdict)] }

/-- `Connection::deliver_action`, with the rejection that follows if it fails. -/
def deliverAction (s : LiveSeat ι) (c : ι) (tableId handId : ℕ) (action : Action) :
    LiveSeat ι :=
  let rejected := ServerMessage.actionRejected "no matching pending action"
  match s.pending c with
  | none => s.trySend c rejected
  | some ask =>
    if ask.prompt.tableId ≠ tableId ∨ ask.prompt.handId ≠ handId then s.trySend c rejected
    else if ask.prompt.legal.isLegal action then
      if s.channel ask.call = .live then
        { s.takeSlot c with channel := Function.update s.channel ask.call (.answered action) }
      else (s.takeSlot c).trySend c rejected
    else s.trySend c rejected

/-- One section of the agent; `none` if it is not there. -/
def agentStep (ctx : SeatContext) (s : LiveSeat ι) : AgentOp → Option (LiveSeat ι)
  | .resolve prompt =>
    match s.agent with
    | .idle => some { s with
        agent := .resolved s.current ⟨s.asked.length, prompt⟩
        asked := s.asked ++ [prompt] }
    | _ => none
  | .check =>
    match s.agent with
    | .resolved c ask =>
      some (if s.departed c then s.giveBack ask .departed else { s with agent := .checked c ask })
    | _ => none
  | .store =>
    match s.agent with
    | .checked c ask => some { s.putSlot c (some ask) with agent := .stored c ask }
    | _ => none
  | .send =>
    match s.agent with
    | .stored c ask =>
      some { s.trySend c (ask.prompt.prompt ctx.deadlineMs) with agent := .waiting ask }
    | _ => none
  | .receive =>
    match s.agent with
    | .waiting ask =>
      match s.channel ask.call with
      | .answered action => some (s.giveBack ask (.answered action))
      | _ => none
    | _ => none
  | .lose =>
    match s.agent with
    | .waiting ask =>
      if s.channel ask.call = .dropped then some { s with agent := .failed ask .dropped } else none
    | _ => none
  | .expire =>
    match s.agent with
    | .waiting ask =>
      if s.channel ask.call = .live then
        some { s with
          agent := .failed ask .elapsed
          channel := Function.update s.channel ask.call .closed }
      else none
    | _ => none
  | .resolveAgain =>
    match s.agent with
    | .failed ask verdict => some { s with agent := .clearing s.current ask verdict }
    | _ => none
  | .clear =>
    match s.agent with
    | .clearing c ask verdict => some ((s.putSlot c none).giveBack ask verdict)
    | _ => none

/-- One section of the session of connection `c`; `none` if it is not there. -/
def sessionStep (ctx : SeatContext) (s : LiveSeat ι) (c : ι) :
    SessionOp ι → Option (LiveSeat ι)
  | .login old =>
    match s.session c with
    | .offline => some { s.enter c .entered with revoked := Function.update s.revoked old true }
    | _ => none
  | .join =>
    match s.session c with
    | .entered => some (if s.member then
        (s.enter c .joined).trySend c (.joinedTable ctx.tableId ctx.seat ctx.seats)
      else s.enter c .reading)
    | _ => none
  | .lookUp =>
    match s.session c with
    | .joined => some (s.enter c (.found s.current))
    | _ => none
  | .lift =>
    match s.session c with
    | .found old => some ((s.takeSlot old).enter c (.lifted (s.pending old)))
    | _ => none
  | .replace =>
    match s.session c with
    | .lifted migrated => some { s.enter c (.replaced migrated) with current := c }
    | _ => none
  | .restore =>
    match s.session c with
    | .replaced none => some (s.enter c (.restored none))
    | .replaced (some ask) => some ((s.putSlot c (some ask)).enter c (.restored (some ask)))
    | _ => none
  | .reprompt =>
    match s.session c with
    | .restored none => some (s.enter c .reading)
    | .restored (some ask) =>
      some ((s.trySend c (ask.prompt.prompt ctx.deadlineMs)).enter c .reading)
    | _ => none
  | .deliver tableId handId action =>
    match s.session c with
    | .reading => some (s.deliverAction c tableId handId action)
    | _ => none
  | .leaveDepart =>
    match s.session c with
    | .reading =>
      some { s.enter c .leaveDeparted with departed := Function.update s.departed c true }
    | _ => none
  | .leaveDrop =>
    match s.session c with
    | .leaveDeparted => some ((s.putSlot c none).enter c .leaveDropped)
    | _ => none
  | .leaveTable =>
    match s.session c with
    | .leaveDropped => some { s.enter c .leaveMarked with leavePending := true }
    | _ => none
  | .leaveRecord =>
    match s.session c with
    | .leaveMarked => some { s.enter c .leaveRecorded with member := false }
    | _ => none
  | .leaveReply =>
    match s.session c with
    | .leaveRecorded => some ((s.enter c .reading).trySend c (.leftTable ctx.tableId))
    | _ => none
  | .strayDepart =>
    match s.session c with
    | .reading =>
      some { s.enter c .strayDeparted with departed := Function.update s.departed c true }
    | _ => none
  | .strayDrop =>
    match s.session c with
    | .strayDeparted => some ((s.putSlot c none).enter c .strayDropped)
    | _ => none
  | .strayReply =>
    match s.session c with
    | .strayDropped =>
      some ((s.enter c .reading).trySend c (.actionRejected "not seated at this table"))
    | _ => none
  | .closeDepart =>
    match s.session c with
    | .reading =>
      some { s.enter c .closeDeparted with departed := Function.update s.departed c true }
    | _ => none
  | .closeDrop =>
    match s.session c with
    | .closeDeparted => some ((s.putSlot c none).enter c .closeDropped)
    | _ => none
  | .closeRead =>
    match s.session c with
    | .closeDropped => some (s.enter c (if s.revoked c then .closed else .closeKept))
    | _ => none
  | .closeRecord =>
    match s.session c with
    | .closeKept =>
      some { s.enter c (if s.member then .closeRecorded else .closed) with member := false }
    | _ => none
  | .closeForce =>
    match s.session c with
    | .closeRecorded => some { s.enter c .closed with
        leavePending := s.leavePending || s.current = c }
    | _ => none

/-- One section. -/
def step (ctx : SeatContext) (s : LiveSeat ι) : SeatOp ι → Option (LiveSeat ι)
  | .agent op => s.agentStep ctx op
  | .session c op => s.sessionStep ctx c op

/-- The runs of a seat. -/
def Runs (ctx : SeatContext) (s : LiveSeat ι) (ops : List (SeatOp ι)) (t : LiveSeat ι) : Prop :=
  CS.Trace (fun s op t => s.step ctx op = some t) s ops t

/-! ## What a section does -/

/-- What the sections of the agent do, and where they can be taken. -/
inductive AgentStep (ctx : SeatContext) (s : LiveSeat ι) : AgentOp → LiveSeat ι → Prop
  | resolve (prompt : PendingAction) (h : s.agent = .idle) :
      AgentStep ctx s (.resolve prompt) { s with
        agent := .resolved s.current ⟨s.asked.length, prompt⟩
        asked := s.asked ++ [prompt] }
  | fold {c : ι} {ask : Ask} (h : s.agent = .resolved c ask) (hdeparted : s.departed c = true) :
      AgentStep ctx s .check (s.giveBack ask .departed)
  | pass {c : ι} {ask : Ask} (h : s.agent = .resolved c ask) (hthere : s.departed c = false) :
      AgentStep ctx s .check { s with agent := .checked c ask }
  | store {c : ι} {ask : Ask} (h : s.agent = .checked c ask) :
      AgentStep ctx s .store { s.putSlot c (some ask) with agent := .stored c ask }
  | send {c : ι} {ask : Ask} (h : s.agent = .stored c ask) :
      AgentStep ctx s .send
        { s.trySend c (ask.prompt.prompt ctx.deadlineMs) with agent := .waiting ask }
  | receive {ask : Ask} {action : Action} (h : s.agent = .waiting ask)
      (hanswer : s.channel ask.call = .answered action) :
      AgentStep ctx s .receive (s.giveBack ask (.answered action))
  | lose {ask : Ask} (h : s.agent = .waiting ask) (hdropped : s.channel ask.call = .dropped) :
      AgentStep ctx s .lose { s with agent := .failed ask .dropped }
  | expire {ask : Ask} (h : s.agent = .waiting ask) (hlive : s.channel ask.call = .live) :
      AgentStep ctx s .expire { s with
        agent := .failed ask .elapsed
        channel := Function.update s.channel ask.call .closed }
  | resolveAgain {ask : Ask} {verdict : Verdict} (h : s.agent = .failed ask verdict) :
      AgentStep ctx s .resolveAgain { s with agent := .clearing s.current ask verdict }
  | clear {c : ι} {ask : Ask} {verdict : Verdict} (h : s.agent = .clearing c ask verdict) :
      AgentStep ctx s .clear ((s.putSlot c none).giveBack ask verdict)

theorem agentStep_cases {ctx : SeatContext} {s t : LiveSeat ι} {op : AgentOp}
    (h : s.agentStep ctx op = some t) : AgentStep ctx s op t := by
  cases op with
  | check =>
    rw [agentStep] at h
    split at h
    · rename_i hagent
      obtain rfl := Option.some.inj h
      split
      · rename_i hdeparted
        exact .fold hagent hdeparted
      · rename_i hthere
        exact .pass hagent (eq_false_of_ne_true hthere)
    · cases h
  | receive =>
    rw [agentStep] at h
    split at h
    · split at h
      · obtain rfl := Option.some.inj h
        exact .receive ‹_› ‹_›
      · cases h
    · cases h
  | lose =>
    rw [agentStep] at h
    split at h
    · split at h
      · obtain rfl := Option.some.inj h
        exact .lose ‹_› ‹_›
      · cases h
    · cases h
  | expire =>
    rw [agentStep] at h
    split at h
    · split at h
      · obtain rfl := Option.some.inj h
        exact .expire ‹_› ‹_›
      · cases h
    · cases h
  | _ =>
    rw [agentStep] at h
    split at h
    · obtain rfl := Option.some.inj h
      constructor
      assumption
    · cases h

/-- What happens to a submitted action. -/
inductive Delivered (s : LiveSeat ι) (c : ι) (tableId handId : ℕ) (action : Action) :
    LiveSeat ι → Prop
  | rejected (h : ∀ ask, s.pending c = some ask → ask.prompt.tableId = tableId →
        ask.prompt.handId = handId → ask.prompt.legal.isLegal action = false) :
      Delivered s c tableId handId action
        (s.trySend c (.actionRejected "no matching pending action"))
  | answers {ask : Ask} (h : s.pending c = some ask) (htable : ask.prompt.tableId = tableId)
      (hhand : ask.prompt.handId = handId) (hlegal : ask.prompt.legal.isLegal action = true)
      (hlive : s.channel ask.call = .live) :
      Delivered s c tableId handId action { s.takeSlot c with
        channel := Function.update s.channel ask.call (.answered action) }
  | late {ask : Ask} (h : s.pending c = some ask) (htable : ask.prompt.tableId = tableId)
      (hhand : ask.prompt.handId = handId) (hlegal : ask.prompt.legal.isLegal action = true)
      (hgone : s.channel ask.call ≠ .live) :
      Delivered s c tableId handId action
        ((s.takeSlot c).trySend c (.actionRejected "no matching pending action"))

theorem deliverAction_cases (s : LiveSeat ι) (c : ι) (tableId handId : ℕ) (action : Action) :
    Delivered s c tableId handId action (s.deliverAction c tableId handId action) := by
  rw [deliverAction]
  split
  · rename_i hnone
    refine .rejected fun ask hask => ?_
    rw [hnone] at hask
    cases hask
  · rename_i ask hask
    split
    · rename_i hother
      refine .rejected fun ask' hask' htable hhand => ?_
      obtain rfl := Option.some.inj (hask.symm.trans hask')
      exact absurd hother (by simp [htable, hhand])
    · rename_i hsame
      push Not at hsame
      split
      · split
        · exact .answers hask hsame.1 hsame.2 ‹_› ‹_›
        · exact .late hask hsame.1 hsame.2 ‹_› ‹_›
      · rename_i hillegal
        refine .rejected fun ask' hask' _ _ => ?_
        obtain rfl := Option.some.inj (hask.symm.trans hask')
        exact eq_false_of_ne_true hillegal

/-- What the sections of the session of `c` do, and where they can be taken. -/
inductive SessionStep (ctx : SeatContext) (s : LiveSeat ι) (c : ι) :
    SessionOp ι → LiveSeat ι → Prop
  | login (old : ι) (h : s.session c = .offline) :
      SessionStep ctx s c (.login old)
        { s.enter c .entered with revoked := Function.update s.revoked old true }
  | join (h : s.session c = .entered) (hmember : s.member = true) :
      SessionStep ctx s c .join
        ((s.enter c .joined).trySend c (.joinedTable ctx.tableId ctx.seat ctx.seats))
  | pass (h : s.session c = .entered) (hgone : s.member = false) :
      SessionStep ctx s c .join (s.enter c .reading)
  | lookUp (h : s.session c = .joined) :
      SessionStep ctx s c .lookUp (s.enter c (.found s.current))
  | lift {old : ι} (h : s.session c = .found old) :
      SessionStep ctx s c .lift ((s.takeSlot old).enter c (.lifted (s.pending old)))
  | replace {migrated : Option Ask} (h : s.session c = .lifted migrated) :
      SessionStep ctx s c .replace { s.enter c (.replaced migrated) with current := c }
  | restoreNone (h : s.session c = .replaced none) :
      SessionStep ctx s c .restore (s.enter c (.restored none))
  | restore {ask : Ask} (h : s.session c = .replaced (some ask)) :
      SessionStep ctx s c .restore ((s.putSlot c (some ask)).enter c (.restored (some ask)))
  | repromptNone (h : s.session c = .restored none) :
      SessionStep ctx s c .reprompt (s.enter c .reading)
  | reprompt {ask : Ask} (h : s.session c = .restored (some ask)) :
      SessionStep ctx s c .reprompt
        ((s.trySend c (ask.prompt.prompt ctx.deadlineMs)).enter c .reading)
  | deliver (tableId handId : ℕ) (action : Action) (h : s.session c = .reading) {t : LiveSeat ι}
      (ht : Delivered s c tableId handId action t) :
      SessionStep ctx s c (.deliver tableId handId action) t
  | leaveDepart (h : s.session c = .reading) :
      SessionStep ctx s c .leaveDepart
        { s.enter c .leaveDeparted with departed := Function.update s.departed c true }
  | leaveDrop (h : s.session c = .leaveDeparted) :
      SessionStep ctx s c .leaveDrop ((s.putSlot c none).enter c .leaveDropped)
  | leaveTable (h : s.session c = .leaveDropped) :
      SessionStep ctx s c .leaveTable { s.enter c .leaveMarked with leavePending := true }
  | leaveRecord (h : s.session c = .leaveMarked) :
      SessionStep ctx s c .leaveRecord { s.enter c .leaveRecorded with member := false }
  | leaveReply (h : s.session c = .leaveRecorded) :
      SessionStep ctx s c .leaveReply ((s.enter c .reading).trySend c (.leftTable ctx.tableId))
  | strayDepart (h : s.session c = .reading) :
      SessionStep ctx s c .strayDepart
        { s.enter c .strayDeparted with departed := Function.update s.departed c true }
  | strayDrop (h : s.session c = .strayDeparted) :
      SessionStep ctx s c .strayDrop ((s.putSlot c none).enter c .strayDropped)
  | strayReply (h : s.session c = .strayDropped) :
      SessionStep ctx s c .strayReply
        ((s.enter c .reading).trySend c (.actionRejected "not seated at this table"))
  | closeDepart (h : s.session c = .reading) :
      SessionStep ctx s c .closeDepart
        { s.enter c .closeDeparted with departed := Function.update s.departed c true }
  | closeDrop (h : s.session c = .closeDeparted) :
      SessionStep ctx s c .closeDrop ((s.putSlot c none).enter c .closeDropped)
  | superseded (h : s.session c = .closeDropped) (hrevoked : s.revoked c = true) :
      SessionStep ctx s c .closeRead (s.enter c .closed)
  | kept (h : s.session c = .closeDropped) (hkept : s.revoked c = false) :
      SessionStep ctx s c .closeRead (s.enter c .closeKept)
  | closeRecord (h : s.session c = .closeKept) :
      SessionStep ctx s c .closeRecord
        { s.enter c (if s.member then .closeRecorded else .closed) with member := false }
  | closeForce (h : s.session c = .closeRecorded) :
      SessionStep ctx s c .closeForce { s.enter c .closed with
        leavePending := s.leavePending || s.current = c }

theorem sessionStep_cases {ctx : SeatContext} {s t : LiveSeat ι} {c : ι} {op : SessionOp ι}
    (h : s.sessionStep ctx c op = some t) : SessionStep ctx s c op t := by
  cases op with
  | join =>
    rw [sessionStep] at h
    split at h
    · obtain rfl := Option.some.inj h
      split
      · exact .join ‹_› ‹_›
      · rename_i hgone
        exact .pass ‹_› (eq_false_of_ne_true hgone)
    · cases h
  | closeRead =>
    rw [sessionStep] at h
    split at h
    · obtain rfl := Option.some.inj h
      split
      · exact .superseded ‹_› ‹_›
      · rename_i hkept
        exact .kept ‹_› (eq_false_of_ne_true hkept)
    · cases h
  | deliver tableId handId action =>
    rw [sessionStep] at h
    split at h
    · obtain rfl := Option.some.inj h
      exact .deliver tableId handId action ‹_› (s.deliverAction_cases c tableId handId action)
    · cases h
  | restore =>
    rw [sessionStep] at h
    split at h
    · obtain rfl := Option.some.inj h
      exact .restoreNone ‹_›
    · obtain rfl := Option.some.inj h
      exact .restore ‹_›
    · cases h
  | reprompt =>
    rw [sessionStep] at h
    split at h
    · obtain rfl := Option.some.inj h
      exact .repromptNone ‹_›
    · obtain rfl := Option.some.inj h
      exact .reprompt ‹_›
    · cases h
  | _ =>
    rw [sessionStep] at h
    split at h
    · obtain rfl := Option.some.inj h
      constructor
      assumption
    · cases h

/-! ### What a session leaves alone -/

section Frame

variable {ctx : SeatContext} {s t : LiveSeat ι} {c : ι} {op : SessionOp ι}

theorem SessionStep.agent_eq (h : SessionStep ctx s c op t) : t.agent = s.agent := by
  cases h with
  | deliver tableId handId action hreading ht => cases ht <;> rfl
  | _ => rfl

theorem SessionStep.asked_eq (h : SessionStep ctx s c op t) : t.asked = s.asked := by
  cases h with
  | deliver tableId handId action hreading ht => cases ht <;> rfl
  | _ => rfl

theorem SessionStep.returned_eq (h : SessionStep ctx s c op t) : t.returned = s.returned := by
  cases h with
  | deliver tableId handId action hreading ht => cases ht <;> rfl
  | _ => rfl

end Frame

end LiveSeat

end VibePoker.Server
