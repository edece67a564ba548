import VibePoker.CS.Trace
import VibePoker.Client.Pump
import VibePoker.Theorems.Framing

/-!
# The native transport delivers what was sent

The pump delivers the server's messages in order as long as no frame is cut: an outbound
message that is forwarded while a frame has been read in part takes that part away, and
the next frame is looked for in the middle of this one.

## Main definitions

* `Pump.Delivers` — what was delivered is what was read, and the rest is still to be read
* `Pump.UncutStep` — no frame has been read in part when the outbound branch completes

## Main results

* `delivers_of_uncut` — runs of such steps lose nothing
* `frame_cut` — a heartbeat that is lost, and the connection with it
-/

namespace VibePoker.Client

open VibePoker.CS VibePoker.Net

variable {server : Codec ServerMessage} {client : Codec ClientMessage}

/-- The bytes of the frame in progress that have been taken off the socket. -/
def ReadOne.taken : ReadOne → List UInt8
  | .lengthPrefix got => got
  | .payload len got => toLeBytes len ++ got

/-- The frames of a list of messages. -/
def Framed (server : Codec ServerMessage) (frames : List (List UInt8))
    (msgs : List ServerMessage) : Prop :=
  List.Forall₂ (fun frame msg => Net.encode server msg = .ok frame) frames msgs

/-! ## Polls -/

/-- The future waits for at least one byte. -/
def ReadOne.Waiting : ReadOne → Prop
  | .lengthPrefix got => got.length < lengthPrefixBytes
  | .payload len got => got.length < len ∧ len ≤ maxFrameBytes

/-- The first frame, if there are any bytes. -/
theorem Framed.cons {frames : List (List UInt8)} {msgs : List ServerMessage}
    (h : Framed server frames msgs) (hbytes : frames.flatten ≠ []) :
    ∃ payload frames' msg msgs', frames = (toLeBytes payload.length ++ payload) :: frames' ∧
      msgs = msg :: msgs' ∧ server.toVec msg = some payload ∧ payload.length ≤ maxFrameBytes ∧
        Framed server frames' msgs' := by
  cases h with
  | nil => exact absurd rfl hbytes
  | cons hframe hframes =>
    obtain ⟨payload, hvec, hle, rfl⟩ := encode_eq_ok.mp hframe
    exact ⟨payload, _, _, _, rfl, rfl, hvec, hle, hframes⟩

theorem ReadOne.finish_eq (hserver : server.RoundTrips) {msg : ServerMessage}
    {payload : List UInt8} (h : server.toVec msg = some payload) :
    ReadOne.finish server payload = .ready (.ok msg) := by
  rw [ReadOne.finish, Net.decode, hserver msg payload h]

/-- Polled with bytes of a stream of frames, the future keeps them, or it completes with
the first message and has taken just its frame. -/
theorem ReadOne.poll_frames (hserver : server.RoundTrips) {future : ReadOne}
    {frames : List (List UInt8)} {msgs : List ServerMessage} {bytes more : List UInt8}
    (hwaiting : future.Waiting) (hframed : Framed server frames msgs)
    (hflatten : frames.flatten = future.taken ++ bytes ++ more)
    (hcount : bytes.length ≤ future.missing) (hbytes : bytes ≠ []) :
    (∃ future', future.poll server bytes = .pending future' ∧ future'.Waiting ∧
        future'.taken = future.taken ++ bytes) ∨
      ∃ frames' msg msgs', future.poll server bytes = .ready (.ok msg) ∧ msgs = msg :: msgs' ∧
        Framed server frames' msgs' ∧ frames'.flatten = more := by
  obtain ⟨payload, frames', msg, msgs', rfl, rfl, hvec, hle, hframed'⟩ :=
    hframed.cons (by simp [hflatten, hbytes])
  rw [List.flatten_cons, List.append_assoc] at hflatten
  cases future with
  | lengthPrefix got =>
    simp only [Waiting, taken, missing] at hwaiting hflatten hcount
    simp only [poll, taken]
    by_cases hshort : (got ++ bytes).length < lengthPrefixBytes
    · left
      rw [if_pos hshort]
      exact ⟨_, rfl, hshort, rfl⟩
    · rw [if_neg hshort]
      -- the prefix is complete, and announces the payload
      have hlength : (toLeBytes payload.length).length = (got ++ bytes).length := by
        rw [toLeBytes_length]
        simp only [List.length_append] at hshort ⊢
        omega
      obtain ⟨hhead, hpayload⟩ := List.append_inj hflatten hlength
      rw [← hhead, parseLengthPrefix_toLeBytes hle]
      dsimp only
      by_cases hempty : payload.length = 0
      · right
        rw [if_pos hempty]
        rw [List.length_eq_zero_iff] at hempty
        subst hempty
        exact ⟨frames', msg, msgs', finish_eq hserver hvec, rfl, hframed', hpayload⟩
      · left
        rw [if_neg hempty]
        exact ⟨_, rfl, ⟨Nat.pos_of_ne_zero hempty, hle⟩, List.append_nil _⟩
  | payload len got =>
    simp only [Waiting, taken, missing] at hwaiting hflatten hcount
    simp only [poll, taken]
    rw [List.append_assoc, List.append_assoc] at hflatten
    obtain ⟨hhead, hpayload⟩ := List.append_inj hflatten rfl
    have hlen := congrArg fromLeBytes hhead
    rw [fromLeBytes_of_le hle, fromLeBytes_of_le hwaiting.2] at hlen
    subst hlen
    rw [← List.append_assoc] at hpayload
    by_cases hshort : (got ++ bytes).length < payload.length
    · left
      rw [if_pos hshort]
      exact ⟨_, rfl, ⟨hshort, hle⟩, (List.append_assoc _ _ _).symm⟩
    · right
      rw [if_neg hshort]
      have hlength : payload.length = (got ++ bytes).length := by
        simp only [List.length_append] at hshort ⊢
        omega
      obtain ⟨hpayload, hmore⟩ := List.append_inj hpayload hlength
      rw [← hpayload]
      exact ⟨frames', msg, msgs', finish_eq hserver hvec, rfl, hframed', hmore⟩

namespace Pump

/-- Of the messages `sent`, those delivered are the first ones. While the pump runs, the
others are what it is still to read, and it is lost only when the stream ends or the
host's messages cannot be written. Lost at the end of the stream between two frames, it has
delivered whatever arrived. -/
structure Delivers (server : Codec ServerMessage) (sent : List ServerMessage) (p : Pump) :
    Prop where
  inOrder : p.messages <+: sent
  rest : p.stopped = false → ∃ frames later, sent = p.messages ++ later ∧
    Framed server frames later ∧ frames.flatten = p.reading.taken ++ p.socket ++ p.incoming
  lost : ∀ reason, .lost reason ∈ p.inbound →
    (p.ended ∧ (reason = .closed ∨ reason = .readPayload)) ∨ reason = .write ∨
      ∃ error, reason = .encode error
  all : .lost .closed ∈ p.inbound → p.incoming = [] → p.messages = sent

/-- No frame has been read in part when the outbound branch completes with a message. -/
def Uncut (p : Pump) : PumpStep → Prop
  | .takeOutbound _ => p.reading = .fresh
  | _ => True

instance (p : Pump) (label : PumpStep) : Decidable (p.Uncut label) := by
  cases label <;> unfold Uncut <;> infer_instance

/-! ## Steps -/

variable {sent : List ServerMessage} {p q : Pump}

/-- `Delivers`; the read future waits for bytes, and a pump that is lost has stopped. -/
structure Sound (server : Codec ServerMessage) (sent : List ServerMessage) (p : Pump) : Prop
    extends p.Delivers server sent where
  waiting : p.stopped = false → p.reading.Waiting
  stops : ∀ reason, .lost reason ∈ p.inbound → p.stopped

theorem waiting_fresh : ReadOne.fresh.Waiting := by
  simp [ReadOne.fresh, ReadOne.Waiting, lengthPrefixBytes]

/-- A pump that is told the frames of `sent`. -/
theorem sound_connected {frames : List (List UInt8)} (h : Framed server frames sent) :
    (connected frames.flatten).Sound server sent where
  inOrder := List.nil_prefix
  rest _ := ⟨frames, sent, rfl, h, rfl⟩
  lost := by simp [connected]
  all := by simp [connected]
  waiting _ := waiting_fresh
  stops := by simp [connected]

@[simp] theorem messages_lose (p : Pump) (reason : LostReason) :
    (p.lose reason).messages = p.messages := by
  simp [messages, lose, TransportIn.message?]

/-- The pump may be lost while the host's messages are written. -/
theorem Sound.lose_writing (h : p.Sound server sent) {reason : LostReason}
    (hreason : reason = .write ∨ ∃ error, reason = .encode error) :
    (p.lose reason).Sound server sent where
  inOrder := by simpa using h.inOrder
  rest := nofun
  lost reason' hlost := by
    rcases List.mem_append.mp hlost with hold | hnew
    · exact h.lost reason' hold
    · obtain rfl : reason' = reason := by simpa using hnew
      exact Or.inr hreason
  all hlost hincoming := by
    rw [messages_lose]
    rcases List.mem_append.mp hlost with hold | hnew
    · exact h.all hold hincoming
    · obtain rfl : LostReason.closed = reason := by simpa using hnew
      rcases hreason with hwrite | ⟨error, hencode⟩
      · cases hwrite
      · cases hencode
  waiting := nofun
  stops _ _ := rfl

/-- At the end of the stream whatever arrived has been delivered, up to a frame that is
not complete. -/
theorem Sound.readEnd (h : p.Sound server sent) (hrunning : p.stopped = false)
    (hsocket : p.socket = []) (hended : p.ended) :
    (p.lose p.reading.pollEnd).Sound server sent where
  inOrder := by simpa using h.inOrder
  rest := nofun
  lost reason hlost := by
    rcases List.mem_append.mp hlost with hold | hnew
    · exact h.lost reason hold
    · obtain rfl : reason = p.reading.pollEnd := by simpa using hnew
      refine Or.inl ⟨hended, ?_⟩
      cases p.reading with
      | lengthPrefix => exact Or.inl rfl
      | payload => exact Or.inr rfl
  all hlost hincoming := by
    rw [messages_lose]
    rcases List.mem_append.mp hlost with hold | hnew
    · exact h.all hold hincoming
    · obtain ⟨frames, later, hsent, hframed, hflatten⟩ := h.rest hrunning
      have hwaiting := h.waiting hrunning
      have hincoming : p.incoming = [] := hincoming
      rw [hsocket, hincoming, List.append_nil, List.append_nil] at hflatten
      have hend : LostReason.closed = p.reading.pollEnd := by simpa using hnew
      cases hreading : p.reading with
      | payload => rw [hreading] at hend; cases hend
      | lengthPrefix got =>
        rw [hreading] at hflatten hwaiting
        -- fewer bytes than a prefix are no frame
        cases hframed with
        | nil => rw [hsent, List.append_nil]
        | cons hframe _ =>
          obtain ⟨payload, -, -, rfl⟩ := encode_eq_ok.mp hframe
          have hlength := congrArg List.length hflatten
          simp only [List.flatten_cons, List.length_append, toLeBytes_length,
            ReadOne.taken] at hlength
          simp only [ReadOne.Waiting] at hwaiting
          omega
  waiting := nofun
  stops _ _ := rfl

/-- A read keeps what it gets, or delivers the next message. -/
theorem Sound.read (h : p.Sound server sent) (hserver : server.RoundTrips)
    (hrunning : p.stopped = false) {count : ℕ} (hcount : 0 < count)
    (hsocket : count ≤ p.socket.length) (hmissing : count ≤ p.reading.missing) :
    ∃ q, p.step server client (.read count) = some q ∧ q.Sound server sent := by
  obtain ⟨frames, later, hsent, hframed, hflatten⟩ := h.rest hrunning
  have hbytes : (p.socket.take count).length = count := List.length_take_of_le hsocket
  have hstream : frames.flatten = p.reading.taken ++ p.socket.take count ++
      (p.socket.drop count ++ p.incoming) := by
    rw [hflatten, List.append_assoc, List.append_assoc, ← List.append_assoc (p.socket.take count),
      List.take_append_drop]
  have hguard : ¬(p.stopped ∨ p.socket.length < count ∨ p.reading.missing < count ∨ count = 0) := by
    simp only [hrunning, Bool.false_eq_true, false_or]
    omega
  rw [step, if_neg hguard]
  rcases ReadOne.poll_frames hserver (h.waiting hrunning) hframed hstream (by omega)
      (by rintro hnil; rw [hnil] at hbytes; exact hcount.ne hbytes) with
    ⟨future, hpoll, hwaiting, htaken⟩ | ⟨frames', msg, msgs, hpoll, rfl, hframed', hmore⟩
  · rw [hpoll]
    refine ⟨_, rfl, ⟨h.inOrder, fun _ => ?_, h.lost, h.all⟩, fun _ => hwaiting, h.stops⟩
    refine ⟨frames, later, hsent, hframed, ?_⟩
    rw [hstream, htaken, ← List.append_assoc]
  · rw [hpoll]
    refine ⟨_, rfl, ?_⟩
    rw [deliver]
    split
    · have hmessages : p.messages ++ [msg] =
          ({ p with inbound := p.inbound ++ [.message msg] } : Pump).messages := by
        simp [messages, TransportIn.message?]
      have hsent' : sent = p.messages ++ [msg] ++ msgs := by
        rw [hsent, List.append_assoc, List.singleton_append]
      -- the pump is running, so that it has reported no loss yet
      have hnotLost : ∀ reason, TransportIn.lost reason ∉ p.inbound ++ [.message msg] := by
        intro reason hlost
        have hstopped := h.stops reason (by simpa using hlost)
        rw [hrunning] at hstopped
        cases hstopped
      refine ⟨⟨?_, fun _ => ⟨frames', msgs, ?_, hframed', hmore⟩, ?_, ?_⟩,
        fun _ => waiting_fresh, ?_⟩
      · exact ⟨msgs, by rw [hsent', hmessages]; rfl⟩
      · rw [hsent', hmessages]
        rfl
      · exact fun reason hlost => absurd hlost (hnotLost reason)
      · exact fun hlost => absurd hlost (hnotLost .closed)
      · exact fun reason hlost => absurd hlost (hnotLost reason)
    · exact ⟨⟨h.inOrder, nofun, h.lost, h.all⟩, nofun, fun _ _ => rfl⟩

theorem Sound.takeOutbound (h : p.Sound server sent) (hrunning : p.stopped = false)
    (huncut : p.reading = .fresh) (outbound : List ClientMessage) (msg : ClientMessage)
    (writes : Bool) :
    ({ p with outbound := outbound }.forward client msg writes).Sound server sent := by
  have hsame : ({ p with outbound := outbound, reading := .fresh } : Pump).Sound server sent := by
    refine ⟨⟨h.inOrder, fun _ => ?_, h.lost, h.all⟩, fun _ => waiting_fresh, h.stops⟩
    obtain ⟨frames, later, hsent, hframed, hflatten⟩ := h.rest hrunning
    rw [huncut] at hflatten
    exact ⟨frames, later, hsent, hframed, hflatten⟩
  simp only [forward]
  split
  · exact hsame.lose_writing (Or.inr ⟨_, rfl⟩)
  · split
    · exact ⟨⟨hsame.inOrder, hsame.rest, hsame.lost, hsame.all⟩, hsame.waiting, hsame.stops⟩
    · exact hsame.lose_writing (Or.inl rfl)

/-- Every step that cuts no frame keeps to what was sent. -/
theorem Sound.step (h : p.Sound server sent) (hserver : server.RoundTrips) {label : PumpStep}
    (huncut : p.Uncut label) (hstep : p.step server client label = some q) :
    q.Sound server sent := by
  cases label with
  | arrive count =>
    rw [Pump.step] at hstep
    split at hstep
    · cases hstep
    · rename_i hended
      obtain rfl := Option.some.inj hstep
      refine ⟨⟨h.inOrder, fun hrunning => ?_, h.lost, fun hlost _ => ?_⟩, h.waiting, h.stops⟩
      · obtain ⟨frames, later, hsent, hframed, hflatten⟩ := h.rest hrunning
        refine ⟨frames, later, hsent, hframed, ?_⟩
        rw [hflatten, List.append_assoc, List.append_assoc, List.append_assoc,
          List.take_append_drop]
      · -- a stream that was read to its end gets no more bytes
        rcases h.lost _ hlost with ⟨hend, -⟩ | hwrite | ⟨error, hencode⟩
        · exact absurd hend hended
        · cases hwrite
        · cases hencode
  | streamEnds =>
    obtain rfl := Option.some.inj hstep
    refine ⟨⟨h.inOrder, h.rest, fun reason hlost => ?_, h.all⟩, h.waiting, h.stops⟩
    exact (h.lost reason hlost).imp_left fun hend => ⟨rfl, hend.2⟩
  | send msg =>
    obtain rfl := Option.some.inj hstep
    exact ⟨⟨h.inOrder, h.rest, h.lost, h.all⟩, h.waiting, h.stops⟩
  | unlisten =>
    obtain rfl := Option.some.inj hstep
    exact ⟨⟨h.inOrder, h.rest, h.lost, h.all⟩, h.waiting, h.stops⟩
  | read count =>
    by_cases hguard : p.stopped ∨ p.socket.length < count ∨ p.reading.missing < count ∨ count = 0
    · rw [Pump.step, if_pos hguard] at hstep
      cases hstep
    · simp only [not_or, Bool.not_eq_true, Nat.not_lt] at hguard
      obtain ⟨hrunning, hsocket, hmissing, hcount⟩ := hguard
      obtain ⟨q', hq', hsound⟩ : ∃ q', p.step server client (.read count) = some q' ∧
          q'.Sound server sent :=
        h.read hserver hrunning (Nat.pos_of_ne_zero hcount) hsocket hmissing
      rw [hq'] at hstep
      obtain rfl := Option.some.inj hstep
      exact hsound
  | readEnd =>
    rw [Pump.step] at hstep
    split at hstep
    · cases hstep
    · rename_i hguard
      simp only [not_or, Bool.not_eq_true, not_not] at hguard
      obtain rfl := Option.some.inj hstep
      exact h.readEnd hguard.1 hguard.2.1 (by simpa using hguard.2.2)
  | takeOutbound writes =>
    rw [Pump.step] at hstep
    split at hstep
    · cases hstep
    · rename_i hrunning
      split at hstep
      · cases hstep
      · obtain rfl := Option.some.inj hstep
        exact h.takeOutbound (by simpa using hrunning) huncut _ _ _
  | hangUp =>
    rw [Pump.step] at hstep
    split at hstep
    · cases hstep
    · obtain rfl := Option.some.inj hstep
      exact ⟨⟨h.inOrder, nofun, h.lost, h.all⟩, nofun, fun _ _ => rfl⟩

/-- A step that cuts no frame. -/
def UncutStep (server : Codec ServerMessage) (client : Codec ClientMessage) (p : Pump)
    (label : PumpStep) (q : Pump) : Prop :=
  p.Uncut label ∧ p.step server client label = some q

/-- Whatever the server sends, in whatever portions it arrives, and however the host's own
messages come between: the pump loses nothing as long as it cuts no frame. -/
theorem delivers_of_uncut (hserver : server.RoundTrips) {frames : List (List UInt8)}
    {steps : List PumpStep} (hframed : Framed server frames sent)
    (h : Trace (UncutStep server client) (connected frames.flatten) steps p) :
    p.Delivers server sent := by
  refine (h.invariant (Sound server sent) ?_ (sound_connected hframed)).toDelivers
  rintro p label q hsound ⟨huncut, hstep⟩
  exact hsound.step hserver huncut hstep

/-! ## A heartbeat of the server and one of the host -/

section Heartbeat

open VibePoker.Server

/-- The frame of a heartbeat: ten bytes after the prefix. -/
def heartbeatFrame : List UInt8 := toLeBytes heartbeatPayload.length ++ heartbeatPayload

/-- How the host's heartbeat is encoded. -/
def hostCodec : Codec ClientMessage where
  toVec
    | .heartbeat => some heartbeatPayload
    | _ => none
  fromSlice payload := if payload = heartbeatPayload then some .heartbeat else none

/-- The transport of a server that sends one heartbeat, after some steps. -/
def heartbeatRun (steps : List PumpStep) : Option Pump :=
  steps.foldlM (step heartbeatCodec hostCodec) (connected heartbeatFrame)

/-- The same, with steps that cut no frame. -/
def uncutRun (steps : List PumpStep) : Option Pump :=
  steps.foldlM (fun p label => if p.Uncut label then p.step heartbeatCodec hostCodec label
    else none) (connected heartbeatFrame)

/-- The host's heartbeat is forwarded before the server's is read, which is delivered. -/
theorem delivers_heartbeat : ∃ p,
    uncutRun [.send .heartbeat, .takeOutbound true, .arrive 14, .read 4, .read 10] = some p ∧
      p.inbound.length = 2 ∧ p.Delivers heartbeatCodec [.heartbeat] := by
  obtain ⟨p, hp, hlength⟩ : ∃ p, uncutRun
      [.send .heartbeat, .takeOutbound true, .arrive 14, .read 4, .read 10] = some p ∧
        p.inbound.length = 2 :=
    ⟨_, rfl, rfl⟩
  have hframed : Framed heartbeatCodec [heartbeatFrame] [.heartbeat] :=
    List.Forall₂.cons rfl .nil
  have hbytes : [heartbeatFrame].flatten = heartbeatFrame := List.append_nil _
  have htrace := Trace.of_foldlM_ite hp
  rw [← hbytes] at htrace
  exact ⟨p, hp, hlength, delivers_of_uncut heartbeatCodec_roundTrips hframed htrace⟩

/-- Two bytes of the server's heartbeat have been read when the host's is forwarded: the
next prefix announces more than a gigabyte, and the connection is lost. -/
theorem frame_cut : ∃ p, heartbeatRun
    [.arrive 2, .read 2, .send .heartbeat, .takeOutbound true, .arrive 12, .read 4] = some p ∧
      p.inbound = [.connected, .lost (.frame (.tooLarge 0x48a90000))] ∧
        ¬p.Delivers heartbeatCodec [.heartbeat] := by
  refine ⟨_, rfl, rfl, fun hdelivers => ?_⟩
  rcases hdelivers.lost (.frame (.tooLarge 0x48a90000)) (List.mem_cons_of_mem _ List.mem_cons_self)
    with ⟨hend, -⟩ | hwrite | ⟨error, hencode⟩
  · cases hend
  · cases hwrite
  · cases hencode

end Heartbeat

end Pump

end VibePoker.Client
