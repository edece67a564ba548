import VibePoker.Client.Run

/-!
# The client's connection

The core keeps one flag for its connection. The inputs tell more: whether the
connection is open, and if not, whether the flag has noticed.

## Main definitions

* `Gate` — what the inputs make of the connection
* `HandshakesKept` — handshakes go to an open connection, once

## Main results

* `Agrees.handle` — the gate has the flag of the core
* `opened_handle` — the gate is open exactly while the connection is
* `handshakeCase_handle` — what an input does to the handshake that waits
-/

namespace VibePoker.Client

open VibePoker.Net

/-! ## Handshakes -/

/-- The message opens a session. -/
def isHandshake : ClientMessage → Bool
  | .register _ _ _ _ _ | .authenticate _ _ _ => true
  | _ => false

/-- The handshake that an effect sends. -/
def Effect.handshake? : Effect → Option ClientMessage
  | .send msg => if isHandshake msg then some msg else none
  | _ => none

namespace Input

/-- The handshake that an intent asks for. -/
def requested : Input → Option ClientMessage
  | .intent (.register email username password deviceLabel) =>
    some (.register protocolVersion email username password deviceLabel)
  | .intent (.authenticatePassword identifier password deviceLabel) =>
    some (.authenticate protocolVersion (.password identifier password) deviceLabel)
  | .intent (.authenticateSession key deviceLabel) =>
    some (.authenticate protocolVersion (.session key) deviceLabel)
  | _ => none

/-- The transport reports an open connection. -/
def opens : Input → Bool
  | .intent .connectionOpened => true
  | _ => false

/-- The transport reports that the connection is lost. -/
def loses : Input → Bool
  | .intent (.connectionLost _) => true
  | _ => false

end Input

namespace Entry

/-- The handshakes that were sent. -/
def sent (entry : Entry) : List ClientMessage := entry.effects.filterMap Effect.handshake?

/-- The connection was closed or lost. -/
def closes (entry : Entry) : Bool := entry.input.loses || .closeConnection ∈ entry.effects

/-- Another connection was asked for. -/
def reconnects (entry : Entry) : Bool :=
  entry.effects.any fun
    | .openConnection _ => true
    | _ => false

end Entry

/-- The connection was reported open after it was last asked for, closed or lost. -/
def opened (log : List Entry) : Bool :=
  log.foldl (fun isOpen entry =>
    entry.input.opens || (isOpen && !entry.closes && !entry.reconnects)) false

@[simp] theorem opened_nil : opened [] = false := rfl

@[simp] theorem opened_concat (log : List Entry) (entry : Entry) :
    opened (log ++ [entry]) =
      (entry.input.opens || (opened log && !entry.closes && !entry.reconnects)) := by
  rw [opened, List.foldl_append]
  rfl

/-- Handshakes go to an open connection; what is asked for at another time waits for the
connection and is sent once. -/
structure HandshakesKept (log : List Entry) : Prop where
  /-- Nothing is sent while the connection is not open. -/
  opened_of_sent : ∀ before entry after, log = before ++ entry :: after → entry.sent ≠ [] →
    opened (before ++ [entry]) = true
  /-- What is asked for while it is open is sent. -/
  sent_of_opened : ∀ before entry after msg, log = before ++ entry :: after →
    entry.input.requested = some msg → opened before = true → entry.sent = [msg]
  /-- What is asked for at another time is sent when the connection opens, unless it is
  replaced or the connection is closed or lost before. -/
  sent_of_waiting : ∀ before request between opening after msg,
    log = before ++ request :: (between ++ opening :: after) →
    request.input.requested = some msg → opened before = false →
    (∀ entry ∈ between, entry.input.requested = none ∧ entry.input.opens = false ∧
      entry.closes = false) →
    opening.input.opens = true →
    request.sent = [] ∧ (∀ entry ∈ between, entry.sent = []) ∧ opening.sent = [msg]
  /-- Whatever is sent is asked for, now or before the connection opened, and then it was
  not sent before and no other was asked for since. -/
  requested_of_sent : ∀ before entry after msg, log = before ++ entry :: after →
    msg ∈ entry.sent → entry.sent = [msg] ∧
      (entry.input.requested = some msg ∨
        entry.input.opens = true ∧ ∃ earlier request between,
          before = earlier ++ request :: between ∧ request.input.requested = some msg ∧
            opened earlier = false ∧ request.sent = [] ∧
            ∀ entry ∈ between, entry.sent = [] ∧ entry.input.requested = none ∧
              entry.input.opens = false)

/-! ## The gate -/

/-- What the inputs make of the connection. -/
inductive Gate
  /-- It is not open, and the flag says so. -/
  | shut
  | opened
  /-- It was given up while the flag stood, which still stands. -/
  | stale
deriving DecidableEq

namespace Gate

/-- The flag of the core. -/
def flag : Gate → Bool
  | .shut => false
  | .opened | .stale => true

def isOpened : Gate → Bool
  | .opened => true
  | .shut | .stale => false

/-- The connection is given up, but the flag is left. -/
def forsake : Gate → Gate
  | .shut => .shut
  | .opened | .stale => .stale

@[simp] theorem flag_forsake (gate : Gate) : gate.forsake.flag = gate.flag := by
  cases gate <;> rfl

@[simp] theorem isOpened_forsake (gate : Gate) : gate.forsake.isOpened = false := by
  cases gate <;> rfl

mutual

/-- A message of the server. -/
def inbound : ServerMessage → Gate → Gate
  | .goodbye _, _ => .shut
  | .rejected _ _, gate => gate.forsake
  | .replayEvents _ events, gate => replay events gate
  | .welcome _ _ _ _ _, gate | .tableList _, gate | .joinedTable _ _ _, gate
  | .leftTable _, gate | .tableEvent _ _, gate | .tableState _ _ _, gate
  | .prompt _ _ _ _ _, gate | .actionRejected _, gate | .heartbeat, gate => gate

def replay : List ServerMessage → Gate → Gate
  | [], gate => gate
  | msg :: msgs, gate => replay msgs (inbound msg gate)

end

/-- One input. -/
def input (gate : Gate) : Input → Gate
  | .intent .connectionOpened => .opened
  | .intent (.connect _) => gate.forsake
  | .intent .disconnect | .intent (.connectionLost _) => .shut
  | .intent _ => gate
  | .message msg => inbound msg gate

end Gate

theorem Gate.input_of_requested {input : Input} {msg : ClientMessage}
    (h : input.requested = some msg) (gate : Gate) : gate.input input = gate := by
  cases input with
  | message => cases h
  | intent intent =>
    cases intent with
    | register | authenticatePassword | authenticateSession => rfl
    | _ => cases h

theorem Gate.input_of_opens {input : Input} (h : input.opens = true) (gate : Gate) :
    gate.input input = .opened := by
  cases input with
  | message => cases h
  | intent intent =>
    cases intent with
    | connectionOpened => rfl
    | _ => cases h

/-- The gate after inputs. -/
def gateOf (inputs : List Input) : Gate := inputs.foldl Gate.input .shut

@[simp] theorem gateOf_concat (inputs : List Input) (input : Input) :
    gateOf (inputs ++ [input]) = (gateOf inputs).input input := by
  rw [gateOf, List.foldl_append]
  rfl

/-! ## Messages -/

/-- What messages do to the connection: the flag follows the gate, nothing is sent, and
the gate and the handshake that waits stay unless the connection is closed. -/
structure Heard (core : ClientCore) (gate : Gate) (core' : ClientCore) (gate' : Gate)
    (effects : List Effect) : Prop where
  flag : core.connectionOpen = gate.flag → core'.connectionOpen = gate'.flag
  down : core'.connectionOpen = true → core.connectionOpen = true
  silent : effects.filterMap Effect.handshake? = []
  reconnects : ∀ addr, .openConnection addr ∉ effects
  waiting : core'.pendingHandshake = core.pendingHandshake ∨ core'.pendingHandshake = none
  kept : .closeConnection ∉ effects →
    gate' = gate ∧ core'.pendingHandshake = core.pendingHandshake
  closed : .closeConnection ∈ effects → gate'.isOpened = false

namespace Heard

variable {core core₁ core₂ : ClientCore} {gate gate₁ gate₂ : Gate} {effects effects₂ : List Effect}

/-- A message that leaves the connection alone. -/
theorem of_eq (hflag : core₁.connectionOpen = core.connectionOpen)
    (hwaiting : core₁.pendingHandshake = core.pendingHandshake) :
    Heard core gate core₁ gate [] where
  flag h := hflag.trans h
  down h := hflag.symm.trans h
  silent := rfl
  reconnects _ := List.not_mem_nil
  waiting := Or.inl hwaiting
  kept _ := ⟨rfl, hwaiting⟩
  closed h := absurd h List.not_mem_nil

theorem trans (h : Heard core gate core₁ gate₁ effects)
    (h₂ : Heard core₁ gate₁ core₂ gate₂ effects₂) :
    Heard core gate core₂ gate₂ (effects ++ effects₂) where
  flag hflag := h₂.flag (h.flag hflag)
  down hopen := h.down (h₂.down hopen)
  silent := by rw [List.filterMap_append, h.silent, h₂.silent, List.append_nil]
  reconnects addr hmem := (List.mem_append.mp hmem).elim (h.reconnects addr) (h₂.reconnects addr)
  waiting := by
    rcases h₂.waiting with hsame | hnone
    · rw [hsame]
      exact h.waiting
    · exact Or.inr hnone
  kept hmem := by
    rw [List.mem_append, not_or] at hmem
    obtain ⟨hgate, hwaiting⟩ := h.kept hmem.1
    obtain ⟨hgate₂, hwaiting₂⟩ := h₂.kept hmem.2
    exact ⟨hgate₂.trans hgate, hwaiting₂.trans hwaiting⟩
  closed hmem := by
    -- once closed, later messages do not open the gate
    by_cases hlast : .closeConnection ∈ effects₂
    · exact h₂.closed hlast
    · rw [(h₂.kept hlast).1]
      exact h.closed ((List.mem_append.mp hmem).resolve_right hlast)

end Heard

theorem projectEngineEvent_connection (core : ClientCore) (tableId : ℕ)
    (ev : VibePoker.Game.EngineEvent) :
    (core.projectEngineEvent tableId ev).connectionOpen = core.connectionOpen ∧
      (core.projectEngineEvent tableId ev).pendingHandshake = core.pendingHandshake := by
  unfold ClientCore.projectEngineEvent
  split
  · cases ev with
    | holeCardsDealt =>
      dsimp only
      split <;> exact ⟨rfl, rfl⟩
    | handStarted | boardDealt | actionTaken | playerAllIn | handEnded => exact ⟨rfl, rfl⟩
  · exact ⟨rfl, rfl⟩

mutual

theorem heard_handleInbound (msg : ServerMessage) (core : ClientCore) (gate : Gate) :
    Heard core gate (ClientCore.handleInbound msg core).1 (gate.inbound msg)
      (ClientCore.handleInbound msg core).2 := by
  cases msg with
  | welcome =>
    simp only [ClientCore.handleInbound, Gate.inbound]
    exact ⟨id, id, rfl, by simp, Or.inl rfl, fun _ => ⟨rfl, rfl⟩, by simp⟩
  | rejected =>
    -- the connection is closed, the flag and the handshake that waits are left
    simp only [ClientCore.handleInbound, Gate.inbound]
    exact ⟨fun h => h.trans gate.flag_forsake.symm, id, rfl, by simp, Or.inl rfl, by simp,
      fun _ => gate.isOpened_forsake⟩
  | goodbye =>
    simp only [ClientCore.handleInbound, Gate.inbound]
    exact ⟨fun _ => rfl, fun h => Bool.noConfusion h, rfl, by simp, Or.inr rfl, by simp, fun _ => rfl⟩
  | heartbeat | tableList | joinedTable | leftTable | prompt =>
    simp only [ClientCore.handleInbound, Gate.inbound]
    exact Heard.of_eq rfl rfl
  | tableState =>
    simp only [ClientCore.handleInbound, Gate.inbound]
    split <;> exact Heard.of_eq rfl rfl
  | tableEvent tableId ev =>
    simp only [ClientCore.handleInbound, Gate.inbound]
    obtain ⟨hflag, hwaiting⟩ := projectEngineEvent_connection core tableId ev
    exact Heard.of_eq hflag hwaiting
  | actionRejected =>
    simp only [ClientCore.handleInbound, Gate.inbound]
    exact Heard.of_eq rfl rfl
  | replayEvents handId events =>
    simp only [ClientCore.handleInbound, Gate.inbound]
    exact heard_handleReplay events core gate

theorem heard_handleReplay (msgs : List ServerMessage) (core : ClientCore) (gate : Gate) :
    Heard core gate (ClientCore.handleReplay msgs core).1 (gate.replay msgs)
      (ClientCore.handleReplay msgs core).2 := by
  cases msgs with
  | nil =>
    simp only [ClientCore.handleReplay, Gate.replay]
    exact Heard.of_eq rfl rfl
  | cons msg msgs =>
    simp only [ClientCore.handleReplay, Gate.replay]
    exact (heard_handleInbound msg core gate).trans (heard_handleReplay msgs _ _)

end

/-! ## Inputs -/

/-- The flag follows the gate, and stands only if no handshake waits. -/
structure Agrees (core : ClientCore) (gate : Gate) : Prop where
  flag : core.connectionOpen = gate.flag
  idle : core.connectionOpen = true → core.pendingHandshake = none
  handshake : ∀ msg, core.pendingHandshake = some msg → isHandshake msg = true

theorem Agrees.heard {core core' : ClientCore} {gate gate' : Gate} {effects : List Effect}
    (h : Agrees core gate) (hheard : Heard core gate core' gate' effects) :
    Agrees core' gate' where
  flag := hheard.flag h.flag
  idle hopen := by
    rcases hheard.waiting with hsame | hnone
    · rw [hsame]
      exact h.idle (hheard.down hopen)
    · exact hnone
  handshake msg hmsg := by
    rcases hheard.waiting with hsame | hnone
    · exact h.handshake msg (hsame.symm.trans hmsg)
    · rw [hnone] at hmsg
      cases hmsg

theorem agrees_new (key : Option String) : Agrees (.new key) .shut :=
  ⟨rfl, fun _ => rfl, nofun⟩

/-- An input asks for a handshake, opens the connection, or does neither. -/
inductive HandshakeCase (core : ClientCore) (gate : Gate) (entry : Entry) (core' : ClientCore) :
    Prop
  /-- It is sent if the flag stands, and waits if not. -/
  | asked (msg : ClientMessage) (requested : entry.input.requested = some msg)
      (opens : entry.input.opens = false) (kept : entry.closes = false)
      (sent : entry.sent = if gate.flag then [msg] else [])
      (waiting : core'.pendingHandshake = if gate.flag then none else some msg)
  /-- The handshake that waits is sent. -/
  | opening (requested : entry.input.requested = none) (opens : entry.input.opens = true)
      (sent : entry.sent = core.pendingHandshake.toList)
      (waiting : core'.pendingHandshake = none)
  /-- Nothing is sent. -/
  | other (requested : entry.input.requested = none) (opens : entry.input.opens = false)
      (sent : entry.sent = [])
      (waiting : core'.pendingHandshake = core.pendingHandshake ∨
        core'.pendingHandshake = none)
      (kept : entry.closes = false → core'.pendingHandshake = core.pendingHandshake)

section Inputs

variable {core : ClientCore} {gate : Gate}

theorem queueOrSendHandshake_connection (core : ClientCore) (msg : ClientMessage) :
    (core.queueOrSendHandshake msg).1.connectionOpen = core.connectionOpen ∧
      (core.queueOrSendHandshake msg).1.pendingHandshake =
        (if core.connectionOpen then core.pendingHandshake else some msg) ∧
      (core.queueOrSendHandshake msg).2 = if core.connectionOpen then [.send msg] else [] := by
  unfold ClientCore.queueOrSendHandshake
  split <;> exact ⟨rfl, rfl, rfl⟩

theorem handleSubmitAction_connection (core : ClientCore) (action : VibePoker.Game.Action) :
    (core.handleSubmitAction action).1.connectionOpen = core.connectionOpen ∧
      (core.handleSubmitAction action).1.pendingHandshake = core.pendingHandshake ∧
      ((core.handleSubmitAction action).2 = [] ∨ ∃ tableId handId,
        (core.handleSubmitAction action).2 = [.send (.submitAction tableId handId action)]) := by
  unfold ClientCore.handleSubmitAction
  split
  · split
    · exact ⟨rfl, rfl, Or.inl rfl⟩
    · split
      · exact ⟨rfl, rfl, Or.inr ⟨_, _, rfl⟩⟩
      · exact ⟨rfl, rfl, Or.inl rfl⟩
  · exact ⟨rfl, rfl, Or.inl rfl⟩

theorem Agrees.asked (h : Agrees core gate) {core₁ : ClientCore} {msg : ClientMessage}
    (hopen : core₁.connectionOpen = core.connectionOpen)
    (hwaiting : core₁.pendingHandshake = core.pendingHandshake)
    (hhandshake : isHandshake msg = true) : Agrees (core₁.queueOrSendHandshake msg).1 gate := by
  obtain ⟨hflag, hpending, -⟩ := queueOrSendHandshake_connection core₁ msg
  rw [hopen] at hflag hpending
  refine ⟨hflag.trans h.flag, fun hstands => ?_, fun msg' hmsg' => ?_⟩
  · rw [hflag] at hstands
    rw [hpending, if_pos hstands, hwaiting, h.idle hstands]
  · rw [hpending] at hmsg'
    split at hmsg'
    · exact h.handshake msg' (hwaiting.symm.trans hmsg')
    · cases hmsg'
      exact hhandshake

/-- Every input keeps the flag to the gate. -/
theorem Agrees.handle (h : Agrees core gate) (input : Input) :
    Agrees (core.handle input).1 (gate.input input) := by
  cases input with
  | message msg => exact h.heard (heard_handleInbound msg core gate)
  | intent intent =>
    cases intent with
    | connect => exact ⟨h.flag.trans gate.flag_forsake.symm, h.idle, h.handshake⟩
    | connectionOpened =>
      simp only [ClientCore.handle, ClientCore.handleIntent, Gate.input]
      cases core.pendingHandshake <;> exact ⟨rfl, fun _ => rfl, nofun⟩
    | register | authenticatePassword | authenticateSession => exact h.asked rfl rfl rfl
    | listTables | joinTable | leaveTable | heartbeat => exact ⟨h.flag, h.idle, h.handshake⟩
    | submitAction action =>
      obtain ⟨hopen, hwaiting, -⟩ := handleSubmitAction_connection core action
      exact ⟨hopen.trans h.flag, fun hstands => hwaiting.trans (h.idle (hopen.symm.trans hstands)),
        fun msg hmsg => h.handshake msg (hwaiting.symm.trans hmsg)⟩
    | disconnect | connectionLost =>
      exact ⟨rfl, nofun, nofun⟩

/-- The gate is open exactly while the connection is. -/
theorem opened_handle (core : ClientCore) (gate : Gate) (input : Input) :
    (gate.input input).isOpened =
      (input.opens || (gate.isOpened && !Entry.closes ⟨input, (core.handle input).2⟩ &&
        !Entry.reconnects ⟨input, (core.handle input).2⟩)) := by
  cases input with
  | message msg =>
    have hheard := heard_handleInbound msg core gate
    have hreconnects : Entry.reconnects ⟨.message msg, (core.handle (.message msg)).2⟩ = false := by
      rw [Entry.reconnects, List.any_eq_false]
      -- only an intent of the user reconnects, so a message leaves the address alone
      rintro (addr | _) hmem
      · exact absurd hmem (hheard.reconnects addr)
      all_goals exact Bool.false_ne_true
    rw [hreconnects]
    by_cases hclose : .closeConnection ∈ (core.handle (.message msg)).2
    · have hgate := hheard.closed hclose
      simp [Entry.closes, Input.opens, hclose, Gate.input, hgate]
    · have hgate := (hheard.kept hclose).1
      simp [Entry.closes, Input.opens, Input.loses, hclose, Gate.input, hgate]
  | intent intent =>
    cases intent with
    | connect addr =>
      simp [Gate.input, Input.opens, ClientCore.handle, ClientCore.handleIntent,
        Entry.reconnects]
    | connectionOpened => simp [Gate.input, Gate.isOpened, Input.opens]
    | disconnect | connectionLost =>
      simp [Gate.input, Gate.isOpened, Input.opens, Input.loses, ClientCore.handle,
        ClientCore.handleIntent, Entry.closes]
    -- a handshake is sent or queued; neither opens nor closes the gate
    | register | authenticatePassword | authenticateSession =>
      simp only [ClientCore.handle, ClientCore.handleIntent, Gate.input,
        (queueOrSendHandshake_connection _ _).2.2]
      split <;> simp [Input.opens, Input.loses, Entry.closes, Entry.reconnects]
    | submitAction action =>
      obtain ⟨-, -, heffects⟩ := handleSubmitAction_connection core action
      simp only [ClientCore.handle, ClientCore.handleIntent, Gate.input]
      rcases heffects with heffects | ⟨tableId, handId, heffects⟩ <;>
        simp [heffects, Input.opens, Input.loses, Entry.closes, Entry.reconnects]
    | listTables | joinTable | leaveTable | heartbeat =>
      simp [Gate.input, Input.opens, Input.loses, ClientCore.handle, ClientCore.handleIntent,
        Entry.closes, Entry.reconnects]

theorem handshakeCase_asked (h : Agrees core gate) (core₁ : ClientCore) {msg : ClientMessage}
    {intent : Intent} (hopen : core₁.connectionOpen = core.connectionOpen)
    (hwaiting : core₁.pendingHandshake = core.pendingHandshake)
    (hhandshake : isHandshake msg = true)
    (hrequested : Input.requested (.intent intent) = some msg)
    (hhandle : core.handle (.intent intent) = core₁.queueOrSendHandshake msg) :
    HandshakeCase core gate ⟨.intent intent, (core.handle (.intent intent)).2⟩
      (core.handle (.intent intent)).1 := by
  obtain ⟨-, hpending, heffects⟩ := queueOrSendHandshake_connection core₁ msg
  have hopens : Input.opens (.intent intent) = false ∧ Input.loses (.intent intent) = false := by
    cases intent <;> first | exact ⟨rfl, rfl⟩ | cases hrequested
  rw [hhandle]
  rw [hopen, h.flag] at hpending heffects
  refine .asked msg hrequested hopens.1 ?_ ?_ ?_
  · rw [Entry.closes, hopens.2, heffects]
    split <;> simp
  · rw [Entry.sent, heffects]
    split <;> simp [Effect.handshake?, hhandshake]
  · rw [hpending]
    split
    · rw [hwaiting]
      exact h.idle (h.flag.trans ‹_›)
    · rfl

/-- What an input does to the handshake that waits. -/
theorem handshakeCase_handle (h : Agrees core gate) (input : Input) :
    HandshakeCase core gate ⟨input, (core.handle input).2⟩ (core.handle input).1 := by
  cases input with
  | message msg =>
    have hheard := heard_handleInbound msg core gate
    refine .other rfl rfl hheard.silent hheard.waiting fun hclose => (hheard.kept ?_).2
    exact of_decide_eq_false (Bool.or_eq_false_iff.mp hclose).2
  | intent intent =>
    cases intent with
    | register | authenticatePassword => exact handshakeCase_asked h core rfl rfl rfl rfl rfl
    | authenticateSession key =>
      exact handshakeCase_asked h { core with sessionKey := some key } rfl rfl rfl rfl rfl
    | connectionOpened =>
      simp only [ClientCore.handle, ClientCore.handleIntent]
      cases hpending : core.pendingHandshake with
      | none => exact .opening rfl rfl (by rw [hpending]; rfl) rfl
      | some msg =>
        refine .opening rfl rfl ?_ rfl
        simp [Entry.sent, Effect.handshake?, h.handshake msg hpending, hpending]
    | connect | listTables | joinTable | leaveTable | heartbeat =>
      exact .other rfl rfl rfl (Or.inl rfl) fun _ => rfl
    | submitAction action =>
      obtain ⟨-, hwaiting, heffects⟩ := handleSubmitAction_connection core action
      refine .other rfl rfl ?_ (Or.inl hwaiting) fun _ => hwaiting
      simp only [Entry.sent, ClientCore.handle, ClientCore.handleIntent]
      rcases heffects with heffects | ⟨tableId, handId, heffects⟩ <;> rw [heffects] <;> rfl
    | disconnect | connectionLost =>
      refine .other rfl rfl rfl (Or.inr rfl) fun hclose => ?_
      simp [Entry.closes, Input.loses, ClientCore.handle, ClientCore.handleIntent] at hclose

end Inputs

end VibePoker.Client
