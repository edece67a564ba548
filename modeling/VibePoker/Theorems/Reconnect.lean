import VibePoker.Client.Outline
import VibePoker.Server.Takeover
import VibePoker.Theorems.SeatNumbers

/-!
# Acting after a reconnect

A player that reconnects is to be shown its open prompts, and to be able to answer
them. The client keeps the hand in flight from `HandStarted` on, and `JoinedTable`,
which every takeover sends, puts it away: until the next `HandStarted` a prompt is
recorded but not shown, and no answer is sent.

## Main definitions

* `inFlight` — the hand that the outputs have announced
* `Resumed.Tracks` — the client, once it has read everything, knows the open prompt

## Main results

* `can_act_iff` — when a player that reconnected can act
* `cannot_act` — a takeover while a prompt is open
-/

namespace VibePoker.Server

open VibePoker.Core VibePoker.Game VibePoker.Net VibePoker.Client VibePoker.CS

variable {n : ℕ}

/-- Whether a hand is in flight after an output. -/
def announce (inHand : Bool) : Output n → Bool
  | .event (.handStarted _ _ _) => true
  | .event (.handEnded _ _) => false
  | _ => inHand

/-- The outputs have announced a hand, and not its end. -/
def inFlight (outputs : List (Output n)) : Bool := outputs.foldl announce false

@[simp] theorem inFlight_snoc (outputs : List (Output n)) (o : Output n) :
    inFlight (outputs ++ [o]) = announce (inFlight outputs) o := List.foldl_append

/-- The output is the start of a hand. -/
def IsStart (o : Output n) : Prop :=
  ∃ handId dealer deckSeed, o = .event (.handStarted handId dealer deckSeed)

/-- As long as no hand has ended, one is in flight if one has started. -/
theorem inFlight_iff {outputs : List (Output n)}
    (h : ∀ handId result, .event (.handEnded handId result) ∉ outputs) :
    inFlight outputs = true ↔ ∃ o ∈ outputs, IsStart o := by
  induction outputs using List.reverseRecOn with
  | nil => simp [inFlight]
  | append_singleton outputs o ih =>
    have ih := ih fun handId result hmem => h handId result (List.mem_append_left _ hmem)
    have hlast : (∃ o' ∈ outputs ++ [o], IsStart o') ↔
        (∃ o' ∈ outputs, IsStart o') ∨ IsStart o := by
      simp [or_and_right, exists_or]
    rw [inFlight_snoc, hlast, ← ih]
    cases o with
    | event ev =>
      cases ev with
      | handStarted => simp [announce, IsStart]
      | handEnded handId result => exact absurd (by simp) (h handId result)
      | holeCardsDealt | boardDealt | actionTaken | playerAllIn => simp [announce, IsStart]
    | notify | prompt => simp [announce, IsStart]

/-! ## What reaches the connection of a seat -/

theorem receive_current (tableId : ℕ) (link : SeatLink) (ev : EngineEvent) :
    (BroadcastSink.receive tableId link ev).current =
      link.current.trySend (.tableEvent tableId ev) := by
  cases ev <;> simp [BroadcastSink.receive]

/-- An event leaves the prompt of a connection alone. -/
theorem onEvent_current (sink : BroadcastSink n) (ev : EngineEvent) (i : Fin n) :
    ((sink.onEvent ev).links i).current.pending = (sink.links i).current.pending ∧
      ((sink.onEvent ev).links i).current.departed = (sink.links i).current.departed := by
  rw [BroadcastSink.onEvent_links]
  cases sink.seenBy i ev with
  | none => exact ⟨rfl, rfl⟩
  | some shown =>
    simp only [Option.toList_some, List.foldl_cons, List.foldl_nil, receive_current]
    exact ⟨rfl, rfl⟩

/-- What a seat is shown of an event announces what the event does. -/
theorem event_seenBy {sink : BroadcastSink n} (i : Fin n) (ev : EngineEvent) {o : Outline}
    (hseated : o.isSeatedAt sink.tableId = true) :
    let o' := o.receive ((sink.seenBy i ev).toList.map (.tableEvent sink.tableId))
    o'.isSeatedAt sink.tableId = true ∧ o'.inHand = announce o.inHand (.event ev : Output n) := by
  have hevent : ∀ shown, o.receive [.tableEvent sink.tableId shown] =
      o.event sink.tableId shown := by
    intro shown
    rw [Outline.receive_cons, Outline.receive_nil, Outline.inbound]
  cases ev with
  | holeCardsDealt seat cards =>
    simp only [BroadcastSink.seenBy]
    split
    · simp [hevent, Outline.event, hseated, announce]
    · simpa [announce] using hseated
  | handStarted | handEnded | boardDealt | actionTaken | playerAllIn =>
    simp only [BroadcastSink.seenBy, Option.toList_some, List.map_cons, List.map_nil, hevent]
    unfold Outline.event
    rw [if_pos hseated]
    exact ⟨hseated, rfl⟩

namespace Resumed

variable {i : Fin n} {handId deadlineMs : ℕ} {s t : Resumed n} {outputs : List (Output n)}

/-! ## What the client knows once it has read everything -/

/-- The messages on their way to the client. -/
def unread (s : Resumed n) (i : Fin n) : List ServerMessage :=
  (s.connection i).sent.drop s.read

/-- The outline of the client once it has read everything. -/
def ahead (s : Resumed n) (i : Fin n) : Outline := s.core.outline.receive (s.unread i)

/-- A submission that answers `p` is on its way to the session. -/
def Submitted (p : PendingAction) (uplink : List ClientMessage) : Prop :=
  ∃ action, p.legal.isLegal action = true ∧ .submitAction p.tableId p.handId action ∈ uplink

/-- Once it has read everything, the client is at the table, has the hand that was
announced in flight, knows the open prompt, and shows it unless it was answered. -/
structure Tracks (i : Fin n) (outputs : List (Output n)) (s : Resumed n) : Prop where
  read_le : s.read ≤ (s.connection i).sent.length
  here : (s.connection i).departed = false
  seated : (s.ahead i).isSeatedAt s.sink.tableId = true
  hand : (s.ahead i).inHand = inFlight outputs
  prompt : ∀ p, (s.connection i).pending = some p →
    (s.ahead i).prompt = some ⟨p.tableId, p.handId, p.seat, p.legal⟩
  awaiting : ∀ p, (s.connection i).pending = some p → (s.ahead i).inHand = true →
    (s.ahead i).awaiting = true ∨ Submitted p s.uplink
  /-- The engine waits for the answer. -/
  last : ∀ p, (s.connection i).pending = some p →
    outputs = [] ∨ ∃ before d obs, outputs = before ++ [.prompt d obs]

/-- From `s` to `t`, `msgs` are sent to the client, and it reads nothing. -/
structure Sends (i : Fin n) (msgs : List ServerMessage) (s t : Resumed n) : Prop where
  core : t.core = s.core
  read : t.read = s.read
  sent : (t.connection i).sent = (s.connection i).sent ++ msgs
  table : t.sink.tableId = s.sink.tableId

/-- What is sent next is read after everything else. -/
theorem Sends.ahead_eq {msgs : List ServerMessage} (h : Sends i msgs s t)
    (hle : s.read ≤ (s.connection i).sent.length) : t.ahead i = (s.ahead i).receive msgs := by
  rw [ahead, ahead, unread, unread, h.core, h.read, h.sent, List.drop_append_of_le_length hle,
    Outline.receive_append]

theorem Sends.read_le {msgs : List ServerMessage} (h : Sends i msgs s t)
    (hle : s.read ≤ (s.connection i).sent.length) :
    t.read ≤ (t.connection i).sent.length := by
  rw [h.read, h.sent, List.length_append]
  exact hle.trans (Nat.le_add_right _ _)

@[simp] theorem setConnection_connection (s : Resumed n) (i : Fin n) (c : Connection) :
    (s.setConnection i c).connection i = c := by
  simp [connection, setConnection, SeatLink.replace]

@[simp] theorem reply_connection (s : Resumed n) (i : Fin n) (msg : ServerMessage) :
    (s.reply i msg).connection i = (s.connection i).trySend msg := by
  simp [reply]

/-- A message of the session, which read some of the uplink before. -/
theorem sends_reply (s : Resumed n) (i : Fin n) (msg : ServerMessage)
    (uplink : List ClientMessage) : Sends i [msg] s ({ s with uplink := uplink }.reply i msg) := by
  refine ⟨rfl, rfl, ?_, rfl⟩
  rw [reply_connection]
  rfl

/-- Without an open prompt there is less to know. -/
theorem Tracks.of_none (hle : t.read ≤ (t.connection i).sent.length)
    (hhere : (t.connection i).departed = false)
    (hseated : (t.ahead i).isSeatedAt t.sink.tableId = true)
    (hhand : (t.ahead i).inHand = inFlight outputs)
    (hnone : (t.connection i).pending = none) : Tracks i outputs t where
  read_le := hle
  here := hhere
  seated := hseated
  hand := hhand
  prompt p hp := by simp [hnone] at hp
  awaiting p hp := by simp [hnone] at hp
  last p hp := by simp [hnone] at hp

/-- The prompt is answered or gone, and nothing is sent. -/
theorem Tracks.settle (h : Tracks i outputs s) (hsends : Sends i [] s t)
    (hhere : (t.connection i).departed = (s.connection i).departed)
    (hnone : (t.connection i).pending = none) {outputs' : List (Output n)}
    (hflight : inFlight outputs' = inFlight outputs) : Tracks i outputs' t := by
  have hahead := hsends.ahead_eq h.read_le
  refine .of_none (hsends.read_le h.read_le) (hhere.trans h.here) ?_ ?_ hnone
  · rw [hahead, hsends.table]
    exact h.seated
  · rw [hahead, hflight]
    exact h.hand

/-- The prompt stays open, and messages are sent that leave it known. -/
theorem Tracks.of_sends (h : Tracks i outputs s) {msgs : List ServerMessage}
    (hsends : Sends i msgs s t) (hhere : (t.connection i).departed = (s.connection i).departed)
    (hpending : (t.connection i).pending = (s.connection i).pending)
    (hphase : ((s.ahead i).receive msgs).phase = (s.ahead i).phase)
    (hhand : ((s.ahead i).receive msgs).inHand = (s.ahead i).inHand)
    (hprompt : ((s.ahead i).receive msgs).prompt = (s.ahead i).prompt)
    (hawaiting : ∀ p, (s.connection i).pending = some p → (s.ahead i).inHand = true →
      (s.ahead i).awaiting = true ∨ Submitted p s.uplink →
        ((s.ahead i).receive msgs).awaiting = true ∨ Submitted p t.uplink) :
    Tracks i outputs t := by
  have hahead := hsends.ahead_eq h.read_le
  refine ⟨hsends.read_le h.read_le, hhere.trans h.here, ?_, ?_, ?_, ?_, ?_⟩
  · rw [hahead, hsends.table, Outline.isSeatedAt_congr hphase]
    exact h.seated
  · rw [hahead, hhand]
    exact h.hand
  · rw [hahead, hpending, hprompt]
    exact h.prompt
  · intro p hp hin
    rw [hpending] at hp
    rw [hahead, hhand] at hin
    rw [hahead]
    exact hawaiting p hp hin (h.awaiting p hp hin)
  · rw [hpending]
    exact h.last

/-! ## One step -/

/-- An event of the hand: what the seat is shown of it follows everything else. -/
theorem Tracks.event (h : Tracks i outputs s) (ev : EngineEvent)
    (hnone : (s.connection i).pending = none) :
    Tracks i (outputs ++ [.event ev]) { s with sink := s.sink.onEvent ev } := by
  obtain ⟨hpending, hdeparted⟩ := onEvent_current s.sink ev i
  obtain ⟨hseated, hhand⟩ := event_seenBy i ev h.seated
  have hsends : Sends i ((s.sink.seenBy i ev).toList.map (.tableEvent s.sink.tableId)) s
      { s with sink := s.sink.onEvent ev } :=
    ⟨rfl, rfl, onEvent_sent s.sink ev i, BroadcastSink.onEvent_tableId s.sink ev⟩
  have hahead := hsends.ahead_eq h.read_le
  refine .of_none (hsends.read_le h.read_le) (hdeparted.trans h.here) ?_ ?_
    (hpending.trans hnone)
  · rw [hahead, hsends.table]
    exact hseated
  · rw [hahead, inFlight_snoc, ← h.hand]
    exact hhand

/-- A prompt of the seat: the client is asked after everything else. -/
theorem Tracks.ask (h : Tracks i outputs s) {p : PendingAction}
    (hsends : Sends i [p.prompt deadlineMs] s t)
    (hhere : (t.connection i).departed = (s.connection i).departed)
    (hp : (t.connection i).pending = some p) (d : Decision n) (obs : Observation) :
    Tracks i (outputs ++ [.prompt d obs]) t := by
  have hahead : t.ahead i = { s.ahead i with
      awaiting := (s.ahead i).inHand
      prompt := some ⟨p.tableId, p.handId, p.seat, p.legal⟩ } := by
    rw [hsends.ahead_eq h.read_le, Outline.receive_cons, Outline.receive_nil,
      PendingAction.prompt, Outline.inbound]
  refine ⟨hsends.read_le h.read_le, hhere.trans h.here, ?_, ?_, ?_, ?_, ?_⟩
  · rw [hahead, hsends.table]
    exact h.seated
  · rw [hahead, inFlight_snoc]
    exact h.hand
  · intro q hq
    obtain rfl := Option.some.inj (hp.symm.trans hq)
    rw [hahead]
  · intro q hq hin
    rw [hahead] at hin ⊢
    exact Or.inl hin
  · exact fun q hq => Or.inr ⟨outputs, d, obs, rfl⟩

theorem Tracks.output (h : Tracks i outputs s) {o : Output n}
    (hnone : (s.connection i).pending = none) :
    Tracks i (outputs ++ [o])
      { s with sink := (HandOp.output o).apply handId deadlineMs s.sink } := by
  cases o with
  | event ev => exact h.event ev hnone
  | notify ev =>
    exact h.settle ⟨rfl, rfl, (List.append_nil _).symm, rfl⟩ rfl hnone (inFlight_snoc _ _)
  | prompt d obs =>
    -- a prompt of another seat reaches another connection
    by_cases hseat : d.seat = i
    · obtain rfl := hseat
      have hlink : (((HandOp.output (.prompt d obs)).apply handId deadlineMs s.sink).links
          d.seat).current =
          { s.connection d.seat with
              pending := some (.ofObservation s.sink.tableId handId obs) }.trySend
            ((PendingAction.ofObservation s.sink.tableId handId obs).prompt deadlineMs) := by
        have hhere : (s.sink.links d.seat).current.departed = false := h.here
        simp [connection, HandOp.apply, SeatLink.ask, hhere]
      have hsends : Sends d.seat
          [(PendingAction.ofObservation s.sink.tableId handId obs).prompt deadlineMs] s
          { s with sink := (HandOp.output (.prompt d obs)).apply handId deadlineMs s.sink } :=
        ⟨rfl, rfl, congrArg Connection.sent hlink, rfl⟩
      exact h.ask hsends (congrArg Connection.departed hlink :)
        (congrArg Connection.pending hlink :) d obs
    · have hlink : (((HandOp.output (.prompt d obs)).apply handId deadlineMs s.sink).links
          i).current = s.connection i := by
        simp [connection, HandOp.apply, Function.update_of_ne (Ne.symm hseat)]
      have hsends : Sends i [] s { s with
          sink := (HandOp.output (.prompt d obs)).apply handId deadlineMs s.sink } :=
        ⟨rfl, rfl, (congrArg Connection.sent hlink).trans (List.append_nil _).symm, rfl⟩
      exact h.settle hsends (congrArg Connection.departed hlink :)
        ((congrArg Connection.pending hlink).trans hnone) (inFlight_snoc _ _)

/-- A message that the client passes over. -/
theorem Tracks.reply (h : Tracks i outputs s) {msg : ServerMessage}
    (hmsg : ∀ o, Outline.inbound msg o = o) {uplink : List ClientMessage}
    (huplink : ∀ p, Submitted p s.uplink → Submitted p uplink) :
    Tracks i outputs ({ s with uplink := uplink }.reply i msg) := by
  have hsame : (s.ahead i).receive [msg] = s.ahead i := hmsg _
  refine h.of_sends (sends_reply s i msg uplink) ?_ ?_ (by rw [hsame]) (by rw [hsame])
    (by rw [hsame]) fun p _ _ hp => ?_
  · rw [reply_connection]
    rfl
  · rw [reply_connection]
    rfl
  · rw [hsame]
    exact hp.imp_right (huplink p)

/-- A rejection shows the prompt again. -/
theorem Tracks.reject (h : Tracks i outputs s) (uplink : List ClientMessage)
    (reason : String) :
    Tracks i outputs ({ s with uplink := uplink }.reply i (.actionRejected reason)) := by
  have hrejected : (s.ahead i).receive [.actionRejected reason] =
      if (s.ahead i).prompt.isSome then { s.ahead i with awaiting := (s.ahead i).inHand }
      else s.ahead i := by
    rw [Outline.receive_cons, Outline.receive_nil, Outline.inbound]
  refine h.of_sends (sends_reply s i _ uplink) ?_ ?_ ?_ ?_ ?_ fun p hp hin _ => Or.inl ?_
  · rw [reply_connection]
    rfl
  · rw [reply_connection]
    rfl
  · rw [hrejected]
    split <;> rfl
  · rw [hrejected]
    split <;> rfl
  · rw [hrejected]
    split <;> rfl
  · rw [hrejected, h.prompt p hp]
    exact hin

/-- The prompt is answered, or its deadline has elapsed. -/
theorem Tracks.close (h : Tracks i outputs s) (uplink : List ClientMessage) :
    Tracks i outputs
      ({ s with uplink := uplink }.setConnection i { s.connection i with pending := none }) := by
  have hsends : Sends i [] s
      ({ s with uplink := uplink }.setConnection i { s.connection i with pending := none }) := by
    refine ⟨rfl, rfl, ?_, rfl⟩
    rw [setConnection_connection]
    exact (List.append_nil _).symm
  refine h.settle hsends ?_ ?_ rfl
  · rw [setConnection_connection]
  · rw [setConnection_connection]

theorem Tracks.deliver (h : Tracks i outputs s) {msg : ClientMessage}
    {uplink : List ClientMessage} (huplink : s.uplink = msg :: uplink) (tables : List TableInfo)
    (hstep : { s with uplink := uplink }.handleMessage i tables msg = some t) :
    Tracks i outputs t := by
  have hrest : (∀ tableId handId action, msg ≠ .submitAction tableId handId action) →
      ∀ p, Submitted p s.uplink → Submitted p uplink := by
    rintro hne p ⟨action, hlegal, hmem⟩
    rw [huplink] at hmem
    exact ⟨action, hlegal, (List.mem_cons.mp hmem).resolve_left (hne _ _ _).symm⟩
  cases msg with
  | submitAction tableId handId action =>
    simp only [handleMessage] at hstep
    split at hstep
    · rename_i c action' hdelivered
      obtain rfl := Option.some.inj hstep
      obtain rfl := Connection.deliverAction_eq_some hdelivered
      exact h.close uplink
    · obtain rfl := Option.some.inj hstep
      exact h.reject uplink _
  | heartbeat =>
    obtain rfl := Option.some.inj hstep
    exact h.reply (fun o => by rw [Outline.inbound]) (hrest nofun)
  | listTables =>
    obtain rfl := Option.some.inj hstep
    exact h.reply (fun o => by rw [Outline.inbound]) (hrest nofun)
  | joinTable tableId buyIn =>
    obtain rfl := Option.some.inj hstep
    exact h.reject uplink _
  | register | authenticate | leaveTable | requestReplay | disconnect => cases hstep

/-- The user's intents reach the session behind everything else. -/
theorem Tracks.intend (h : Tracks i outputs s) {intent : Intent}
    (hstays : staysAtTable intent = true) :
    Tracks i outputs { s with
      core := (s.core.handleIntent intent).1
      uplink := s.uplink ++ (s.core.handleIntent intent).2.filterMap sentMessage? } := by
  have hmore : ∀ p more, Submitted p s.uplink → Submitted p (s.uplink ++ more) :=
    fun p more ⟨action, hlegal, hmem⟩ => ⟨action, hlegal, List.mem_append_left _ hmem⟩
  -- the client keeps its state at every intent but a submission
  have hkeeps : ∀ more, Tracks i outputs { s with uplink := s.uplink ++ more } := by
    intro more
    obtain ⟨hle, hhere, hseated, hhand, hprompt, hawaiting, hlast⟩ := h
    exact ⟨hle, hhere, hseated, hhand, hprompt,
      fun p hp hin => (hawaiting p hp hin).imp_right (hmore p more), hlast⟩
  cases intent with
  | listTables | joinTable | heartbeat => exact hkeeps _
  | submitAction action =>
    simp only [ClientCore.handleIntent]
    obtain hignored | ⟨prompt, hprompt, hlegal, houtline, hsent⟩ :=
      handleSubmitAction_cases s.core action
    · rw [hignored]
      exact hkeeps _
    · -- the client put the prompt away, if a later message does not bring it back
      have haway : Outline.Alike (some prompt) s.core.outline
          (s.core.handleSubmitAction action).1.outline := by
        rw [houtline]
        exact ⟨rfl, rfl, rfl, Or.inr hprompt⟩
      have hlater := haway.receive (s.unread i)
      obtain ⟨hle, hhere, hseated, hhand, hknown, hawaiting, hlast⟩ := h
      refine ⟨hle, hhere, (Outline.isSeatedAt_congr hlater.phase _).trans hseated,
        hlater.inHand.trans hhand, fun p hp => hlater.prompt.trans (hknown p hp),
        fun p hp hin => ?_, hlast⟩
      · obtain hsame | hput := hlater.awaiting
        · obtain hshown | hsubmitted := hawaiting p hp (hlater.inHand.symm.trans hin)
          · exact Or.inl (hsame.trans hshown)
          · exact Or.inr (hmore p _ hsubmitted)
        · -- it was the open prompt, and its answer is on its way
          obtain rfl := Option.some.inj (hput.symm.trans (hknown p hp))
          refine Or.inr ⟨action, hlegal, List.mem_append_right _ ?_⟩
          rw [hsent]
          exact List.mem_singleton_self _
  | connect | connectionOpened | register | authenticatePassword | authenticateSession
  | leaveTable | disconnect | connectionLost => cases hstays

/-- Reading a message changes what is on its way, not what the client will know. -/
theorem Tracks.receive (h : Tracks i outputs s) {msg : ServerMessage}
    (hmsg : (s.connection i).sent[s.read]? = some msg) :
    Tracks i outputs
      { s with core := (ClientCore.handleInbound msg s.core).1, read := s.read + 1 } := by
  obtain ⟨hlt, hget⟩ := List.getElem?_eq_some_iff.mp hmsg
  have hahead : Resumed.ahead
      { s with core := (ClientCore.handleInbound msg s.core).1, read := s.read + 1 } i =
      s.ahead i := by
    have hunread : s.unread i = msg :: (s.connection i).sent.drop (s.read + 1) := by
      rw [unread, List.drop_eq_getElem_cons hlt, hget]
    rw [ahead, ahead, hunread, Outline.receive_cons, ← outline_handleInbound]
    rfl
  obtain ⟨-, hhere, hseated, hhand, hprompt, hawaiting, hlast⟩ := h
  exact ⟨hlt, hhere, hahead ▸ hseated, hahead ▸ hhand, hahead ▸ hprompt, hahead ▸ hawaiting, hlast⟩

theorem Tracks.step (h : Tracks i outputs s) {op : ResumedOp n}
    (hstep : s.step i handId deadlineMs op = some t) :
    Tracks i (outputs ++ op.output?.toList) t := by
  cases op with
  | output o =>
    rw [Resumed.step] at hstep
    split_ifs at hstep with hnone
    obtain rfl := Option.some.inj hstep
    exact h.output (Option.isNone_iff_eq_none.mp hnone)
  | session j c =>
    rw [Resumed.step] at hstep
    split_ifs at hstep with hother
    obtain rfl := Option.some.inj hstep
    have hlink : (((HandOp.session j c).apply handId deadlineMs s.sink).links i).current =
        s.connection i := by
      simp [connection, HandOp.apply, Function.update_of_ne (Ne.symm hother)]
    have hsends : Sends i [] s
        { s with sink := (HandOp.session j c).apply handId deadlineMs s.sink } :=
      ⟨rfl, rfl, (congrArg Connection.sent hlink).trans (List.append_nil _).symm, rfl⟩
    simpa [ResumedOp.output?] using h.of_sends hsends (congrArg Connection.departed hlink :)
      (congrArg Connection.pending hlink :) rfl rfl rfl fun p _ _ hp => hp
  | tableState seats button =>
    obtain rfl := Option.some.inj hstep
    have hreply : Tracks i outputs (s.reply i (.tableState s.sink.tableId seats button)) :=
      h.reply (fun o => by rw [Outline.inbound]) fun p => id
    simpa [ResumedOp.output?] using hreply
  | expire =>
    rw [Resumed.step] at hstep
    split_ifs at hstep
    obtain rfl := Option.some.inj hstep
    simpa [ResumedOp.output?] using h.close s.uplink
  | receive =>
    rw [Resumed.step] at hstep
    split at hstep
    · rename_i msg hmsg
      obtain rfl := Option.some.inj hstep
      simpa [ResumedOp.output?] using h.receive hmsg
    · cases hstep
  | intend intent =>
    rw [Resumed.step] at hstep
    split_ifs at hstep with hstays
    obtain rfl := Option.some.inj hstep
    simpa [ResumedOp.output?] using h.intend hstays
  | deliver tables =>
    rw [Resumed.step] at hstep
    split at hstep
    · cases hstep
    · rename_i msg uplink huplink
      simpa [ResumedOp.output?] using h.deliver huplink tables hstep

/-! ## A run -/

theorem Tracks.run {ops : List (ResumedOp n)}
    (hrun : Trace (fun s op t => s.step i handId deadlineMs op = some t) s ops t)
    (h : Tracks i outputs s) : Tracks i (outputs ++ ops.filterMap ResumedOp.output?) t := by
  induction hrun generalizing outputs with
  | nil => simpa using h
  | @cons s u t op ops head tail ih =>
    have hrest := ih (h.step head)
    rw [List.append_assoc] at hrest
    have hops : op.output?.toList ++ ops.filterMap ResumedOp.output? =
        (op :: ops).filterMap ResumedOp.output? := by
      cases hop : op.output? <;> simp [hop]
    exact hops ▸ hrest

/-- The messages of a login, and then the prompt that moved. -/
theorem takeover_sent (sink : BroadcastSink n) (i : Fin n) (login : Login) (seat : ℕ)
    (seats : List SeatInfo) (deadlineMs : ℕ) (core : ClientCore) :
    let c := (takeover sink i login seat seats deadlineMs core).connection i
    c.sent = login.connection.sent ++ [.joinedTable sink.tableId seat seats] ++
        (sink.links i).current.pending.toList.map (·.prompt deadlineMs) ∧
      c.pending = (sink.links i).current.pending ∧ c.departed = false := by
  simp only [connection, takeover, Function.update_self, SeatLink.reconnect]
  cases (sink.links i).current.pending with
  | none =>
    simp [SeatLink.replace, Login.connection, Connection.new]
  | some p =>
    simp [SeatLink.replace, Login.connection, Connection.new]

/-- A prompt that moved is known, but there is no hand to show it in. -/
theorem receive_moved (tableId seat deadlineMs : ℕ) (moved : Option PendingAction) :
    let o := (Outline.blank (.seated tableId seat)).receive
      (moved.toList.map (·.prompt deadlineMs))
    o.isSeatedAt tableId = true ∧ o.inHand = false ∧
      ∀ p, moved = some p → o.prompt = some ⟨p.tableId, p.handId, p.seat, p.legal⟩ := by
  cases moved with
  | none => simp [Outline.blank, Outline.isSeatedAt]
  | some p => simp [Outline.blank, Outline.isSeatedAt, Outline.inbound, PendingAction.prompt]

/-- The takeover leaves the client without a hand, with the prompt that moved. -/
theorem tracks_takeover (sink : BroadcastSink n) (i : Fin n) (login : Login) (seat : ℕ)
    (seats : List SeatInfo) (deadlineMs : ℕ) (core : ClientCore) :
    Tracks i [] (takeover sink i login seat seats deadlineMs core) := by
  obtain ⟨hsent, hpending, hhere⟩ := takeover_sent sink i login seat seats deadlineMs core
  have hahead : (takeover sink i login seat seats deadlineMs core).ahead i =
      (Outline.blank (.seated sink.tableId seat)).receive
        ((sink.links i).current.pending.toList.map (·.prompt deadlineMs)) := by
    rw [ahead, unread, hsent]
    simp [takeover, Login.connection, Connection.new, Outline.inbound]
  obtain ⟨hseated, hin, hprompt⟩ :=
    receive_moved sink.tableId seat deadlineMs (sink.links i).current.pending
  rw [← hahead] at hseated hin hprompt
  refine ⟨Nat.zero_le _, hhere, hseated, hin, fun p hp => hprompt p (hpending ▸ hp),
    fun p _ hcurrent => ?_, fun _ _ => Or.inl rfl⟩
  exact absurd (hin.symm.trans hcurrent) Bool.false_ne_true

/-- With nothing on its way, a player can act on an open prompt exactly if the client
was told the start of the hand. -/
theorem Tracks.canAct_iff (h : Tracks i outputs s) (hquiet : s.Quiescent i)
    (hends : ∀ p, (s.connection i).pending = some p →
      ∀ handId result, .event (.handEnded handId result) ∉ outputs) :
    s.CanAct i ↔ (s.connection i).pending = none ∨ ∃ o ∈ outputs, IsStart o := by
  obtain ⟨hread, hempty⟩ := hquiet
  have hahead : s.ahead i = s.core.outline := by
    rw [ahead, unread, hread, List.drop_length, Outline.receive_nil]
  cases hpending : (s.connection i).pending with
  | none => simp [CanAct, hpending]
  | some p =>
    have hhand := h.hand
    have hprompt := h.prompt p hpending
    have hawaiting := h.awaiting p hpending
    rw [hahead] at hhand hprompt hawaiting
    rw [← inFlight_iff (hends p hpending), ← hhand]
    simp only [reduceCtorEq, false_or]
    constructor
    · intro hcan
      obtain ⟨⟨hand, hcurrent, -⟩, -⟩ := hcan p hpending
      simp [ClientCore.outline, hcurrent]
    · intro hin q hq
      obtain rfl := Option.some.inj (hpending.symm.trans hq)
      have hshown : s.core.stillAwaiting = true := by
        obtain hshown | ⟨action, -, hmem⟩ := hawaiting hin
        · exact hshown
        · simp [hempty] at hmem
      refine ⟨?_, fun action hlegal => ?_⟩
      · simpa [ClientCore.stillAwaiting, Option.any_eq_true] using hshown
      · rw [ClientCore.handleIntent, handleSubmitAction_of_awaiting hshown hprompt hlegal]
        exact List.mem_singleton_self _

end Resumed

section Hand

variable {e : Engine} {handId deckSeed : ℕ} {startingStacks : List ℕ} {dealer : ℕ}

/-- For every hand, every point of it at which a login takes a seat over, and every run
of the seat and its client from there on: once nothing is on its way, the player can act
on an open prompt exactly if the hand had not started before the takeover. -/
theorem can_act_iff (order : Fin 52 → Card) (seatKinds : Option (List SeatKind))
    (answers : List Action) (tableId deadlineMs : ℕ) (links : Fin startingStacks.length → SeatLink)
    (i : Fin startingStacks.length) (login : Login) (seat : ℕ) (seats : List SeatInfo)
    (core : ClientCore) {before : List (HandOp startingStacks.length)}
    {after : List (ResumedOp startingStacks.length)} {rest : List (Output startingStacks.length)}
    {s : Resumed startingStacks.length}
    (hhand : (runHand e handId deckSeed order startingStacks dealer seatKinds answers).1 =
      before.filterMap HandOp.output? ++ after.filterMap ResumedOp.output? ++ rest)
    (hrun : Trace (fun s op t => s.step i handId deadlineMs op = some t)
      (.takeover (before.foldl (HandOp.apply handId deadlineMs) (.new tableId links)) i login seat
        seats deadlineMs core) after s)
    (hquiet : s.Quiescent i) :
    s.CanAct i ↔ (s.connection i).pending = none ∨
      ∃ o ∈ after.filterMap ResumedOp.output?, IsStart o := by
  have htracks := (Resumed.tracks_takeover
    (before.foldl (HandOp.apply handId deadlineMs) (.new tableId links)) i login seat seats
    deadlineMs core).run hrun
  rw [List.nil_append] at htracks
  refine htracks.canAct_iff hquiet fun p hp id result hmem => ?_
  -- the engine waits for the answer, so that the hand has not ended
  obtain hnil | ⟨outputs, d, obs, hlast⟩ := htracks.last p hp
  · rw [hnil] at hmem
    cases hmem
  · rw [hlast, List.mem_append] at hmem
    obtain hmem | hmem := hmem
    · obtain ⟨first, later, rfl⟩ := List.append_of_mem hmem
      rw [hlast] at hhand
      have hend := runHand_ends (hhand.trans (by simp :
        _ = (before.filterMap HandOp.output? ++ first) ++ .event (.handEnded id result) ::
          (later ++ [.prompt d obs] ++ rest)))
      simp at hend
    · cases List.mem_singleton.mp hmem

end Hand

section Example

/-- What a hand of two players does up to its first prompt. -/
def firstPrompt : List (Output [100, 100].length) :=
  (runHand plainEngine 1 0 Card.mk [100, 100] 0 none []).1

def bothLinks (j : Fin [100, 100].length) : SeatLink := linkOf (j + 1)

/-- The player of seat 1, which is asked first, logs in again. -/
def againLogin : Login := ⟨2, "", 3, "", default⟩

/-- Seat 1 after `ops`, if the login comes after `before`. -/
def resumed (before : List (HandOp [100, 100].length))
    (ops : List (ResumedOp [100, 100].length)) : Option (Resumed [100, 100].length) :=
  ops.foldlM (fun s op => s.step 1 1 15000 op)
    (.takeover (before.foldl (HandOp.apply 1 15000) (.new 7 bothLinks)) 1 againLogin 1 [] 15000
      (.new none))

/-- The login comes before the hand, and the client reads everything. -/
def playsAfterLogin : List (ResumedOp [100, 100].length) :=
  firstPrompt.map .output ++ List.replicate 5 .receive

theorem output?_playsAfterLogin : playsAfterLogin.filterMap ResumedOp.output? = firstPrompt := by
  have hreads : (List.replicate 5 (.receive : ResumedOp [100, 100].length)).filterMap
      ResumedOp.output? = [] := rfl
  rw [playsAfterLogin, List.filterMap_append, hreads, List.append_nil, List.filterMap_map]
  exact List.filterMap_some

/-- A login before the hand: the first prompt can be answered. -/
theorem can_act_after_start : ∃ s, resumed [] playsAfterLogin = some s ∧
    (s.connection 1).pending.isSome = true ∧ s.CanAct 1 := by
  have hfinal : (resumed [] playsAfterLogin).any (fun s =>
      s.read = (s.connection 1).sent.length && s.uplink = [] &&
        (s.connection 1).pending.isSome) = true := by decide +kernel
  obtain ⟨s, hs, hfinal⟩ := Option.any_eq_true _ _ |>.mp hfinal
  simp only [Bool.and_eq_true, decide_eq_true_eq] at hfinal
  have hhand : (runHand plainEngine 1 0 Card.mk [100, 100] 0 none []).1 =
      ([] : List (HandOp [100, 100].length)).filterMap HandOp.output? ++
        playsAfterLogin.filterMap ResumedOp.output? ++ [] := by
    rw [output?_playsAfterLogin, List.append_nil]
    rfl
  refine ⟨s, hs, hfinal.2, (can_act_iff Card.mk none [] 7 15000 bothLinks 1 againLogin 1 []
    (.new none) hhand (.of_foldlM hs) hfinal.1).mpr (Or.inr ?_)⟩
  rw [output?_playsAfterLogin]
  exact ⟨.event (.handStarted 1 0 0), handStarted_mem_runHand, 1, 0, 0, rfl⟩

/-- A login while the first prompt is open: the client knows the prompt and does not
show it, and nothing that the player submits is sent. -/
theorem cannot_act :
    (runHand plainEngine 1 0 Card.mk [100, 100] 0 none []).1 =
      (firstPrompt.map HandOp.output).filterMap HandOp.output? ∧
    ∃ s, resumed (firstPrompt.map .output) (List.replicate 3 .receive) = some s ∧
      s.Quiescent 1 ∧ (s.connection 1).pending.isSome = true ∧ ¬ s.CanAct 1 := by
  refine ⟨?_, ?_⟩
  · rw [List.filterMap_map]
    exact (List.filterMap_some).symm
  · have hfinal : (resumed (firstPrompt.map .output) (List.replicate 3 .receive)).any (fun s =>
        s.read = (s.connection 1).sent.length && s.uplink = [] &&
          (s.connection 1).pending.isSome && s.core.view.currentHand.isNone) = true := by
      decide +kernel
    obtain ⟨s, hs, hfinal⟩ := Option.any_eq_true _ _ |>.mp hfinal
    simp only [Bool.and_eq_true, decide_eq_true_eq, Option.isNone_iff_eq_none] at hfinal
    obtain ⟨⟨hquiet, hpending⟩, hnone⟩ := hfinal
    refine ⟨s, hs, hquiet, hpending, fun hcan => ?_⟩
    obtain ⟨p, hp⟩ := Option.isSome_iff_exists.mp hpending
    obtain ⟨⟨hand, hcurrent, -⟩, -⟩ := hcan p hp
    rw [hnone] at hcurrent
    cases hcurrent

end Example

end VibePoker.Server
