import VibePoker.Net.Frame
import VibePoker.Server.BroadcastSink

/-!
# The framing round trip

What is encoded frame by frame is read back frame by frame, from a socket as from an
event log. The two logs of a hand have the same bytes: the one that a file sink writes,
and the one that the broadcast sink keeps.

## Main definitions

* `encodeAll` — the frames of a list of values
* `BroadcastSink.logBytes` — the log that the broadcast sink keeps

## Main results

* `framing_round_trip` — messages and events are read as they were written
-/

namespace VibePoker.Server

open VibePoker.CS VibePoker.Game VibePoker.Net

variable {α : Type*} {codec : Codec α} {events : Codec EngineEvent}

/-! ## Messages -/

/-- The frames of a list of values, unless one of them is refused. -/
def encodeAll (codec : Codec α) (values : List α) : Except FrameError (List (List UInt8)) :=
  values.mapM (encode codec)

/-- Values that fit have frames. -/
theorem encodeAll_of_fits (values : List α) (h : ∀ v ∈ values, codec.Fits v) :
    ∃ fs, encodeAll codec values = .ok fs ∧
      List.Forall₂ (fun f v => encode codec v = .ok f) fs values := by
  induction values with
  | nil => exact ⟨[], rfl, .nil⟩
  | cons v values ih =>
    obtain ⟨payload, hvec, hle⟩ := h v List.mem_cons_self
    obtain ⟨fs, hfs, hforall⟩ := ih fun w hw => h w (List.mem_cons_of_mem _ hw)
    have hframe := encode_eq_ok.mpr ⟨payload, hvec, hle, rfl⟩
    refine ⟨_ :: fs, ?_, .cons hframe hforall⟩
    rw [encodeAll] at hfs ⊢
    rw [List.mapM_cons, hframe]
    simp only [hfs, bind, Except.bind, pure, Except.pure]

/-- A stream of frames is read to its end. -/
theorem readAll_frames_messages (hcodec : codec.RoundTrips) {fs : List (List UInt8)}
    {values : List α} (h : List.Forall₂ (fun f v => encode codec v = .ok f) fs values) :
    (messageReader codec).readAll fs.flatten = (values, .closed, []) := by
  have hread := Reader.readAll_frames (h.imp fun _ _ => reads_encode hcodec) []
  rw [List.append_nil] at hread
  rw [hread, Reader.readAll_of_error rfl, List.append_nil]

/-- So is a log of frames. -/
theorem readAll_frames_log (hcodec : codec.RoundTrips) {fs : List (List UInt8)}
    {values : List α} (h : List.Forall₂ (fun f v => encode codec v = .ok f) fs values) :
    (logReader codec).readAll fs.flatten = (values, .eof, []) := by
  have hread := Reader.readAll_frames (h.imp fun _ _ => reads_logEntry hcodec) []
  rw [List.append_nil] at hread
  rw [hread, Reader.readAll_of_error rfl, List.append_nil]

/-! ## Event logs -/

/-- `BroadcastSink::record`: append the frame of an event, unless it is refused. -/
def recordBytes (events : Codec EngineEvent) (log : List UInt8) (event : EngineEvent) :
    List UInt8 :=
  match encode events event with
  | .ok framed => log ++ framed
  | .error _ => log

/-- The bytes of the events that the sink has recorded. -/
def BroadcastSink.logBytes {n : ℕ} (events : Codec EngineEvent) (sink : BroadcastSink n) :
    List UInt8 :=
  sink.log.foldl (recordBytes events) []

/-- The sink records each event it is given. -/
theorem onEvent_log {n : ℕ} (sink : BroadcastSink n) (event : EngineEvent) :
    (sink.onEvent event).log = sink.log ++ [event] := by
  cases event <;> rfl

theorem onEvents_log {n : ℕ} (sink : BroadcastSink n) (stream : List EngineEvent) :
    (sink.onEvents stream).log = sink.log ++ stream := by
  induction stream generalizing sink with
  | nil => exact (List.append_nil _).symm
  | cons event stream ih =>
    change ((sink.onEvent event).onEvents stream).log = _
    rw [ih, onEvent_log, List.append_assoc, List.singleton_append]

theorem foldl_recordBytes {fs : List (List UInt8)} {stream : List EngineEvent}
    (h : List.Forall₂ (fun f e => encode events e = .ok f) fs stream) (log : List UInt8) :
    stream.foldl (recordBytes events) log = log ++ fs.flatten := by
  induction h generalizing log with
  | nil => exact (List.append_nil log).symm
  | cons hframe _ ih =>
    rw [List.foldl_cons, recordBytes, hframe, ih, List.flatten_cons, List.append_assoc]

/-- A file sink writes the same frames, without looking at the limit. -/
theorem foldlM_onEvent {fs : List (List UInt8)} {stream : List EngineEvent}
    (h : List.Forall₂ (fun f e => encode events e = .ok f) fs stream) (sink : FileSink) :
    stream.foldlM (FileSink.onEvent events) sink = some ⟨sink.bytes ++ fs.flatten⟩ := by
  induction h generalizing sink with
  | nil => simp
  | @cons f e fs stream hframe _ ih =>
    obtain ⟨payload, hvec, -, rfl⟩ := encode_eq_ok.mp hframe
    have honEvent : sink.onEvent events e =
        some ⟨sink.bytes ++ (toLeBytes payload.length ++ payload)⟩ := by
      simp [FileSink.onEvent, hvec]
    rw [List.foldlM_cons, honEvent, Option.bind_eq_bind, Option.bind_some, ih,
      List.flatten_cons, List.append_assoc]

/-! ## The round trip -/

/-- Values within the limit are read as they were written, from a socket and from a log,
and every byte is used. For a stream of events within the limit, a file sink writes what
the broadcast sink keeps, and it is read back as the stream. A payload over the limit is
refused, and a length that is written is accepted. -/
theorem framing_round_trip (hcodec : codec.RoundTrips) (hevents : events.RoundTrips) :
    (∀ values, (∀ v ∈ values, codec.Fits v) → ∃ fs, encodeAll codec values = .ok fs ∧
      (messageReader codec).readAll fs.flatten = (values, .closed, []) ∧
      (logReader codec).readAll fs.flatten = (values, .eof, [])) ∧
    (∀ stream, (∀ e ∈ stream, events.Fits e) → ∃ file,
      stream.foldlM (FileSink.onEvent events) ⟨[]⟩ = some file ∧
      (∀ (n : ℕ) (tableId : ℕ) (links : Fin n → SeatLink),
        ((BroadcastSink.new tableId links).onEvents stream).logBytes events = file.bytes) ∧
      readEventLog events file.bytes = .ok stream) ∧
    (∀ value payload, codec.toVec value = some payload → maxFrameBytes < payload.length →
      encode codec value = .error (.tooLarge payload.length)) ∧
    ∀ value frame, encode codec value = .ok frame →
      ∃ len, parseLengthPrefix (frame.take lengthPrefixBytes) = .ok len ∧
        frame.length = lengthPrefixBytes + len := by
  refine ⟨fun values hfits => ?_, fun stream hfits => ?_, fun value payload hvec hlong => ?_,
    fun value frame hframe => ?_⟩
  · obtain ⟨fs, hfs, hforall⟩ := encodeAll_of_fits values hfits
    exact ⟨fs, hfs, readAll_frames_messages hcodec hforall, readAll_frames_log hcodec hforall⟩
  · obtain ⟨fs, -, hforall⟩ := encodeAll_of_fits stream hfits
    -- the sink writes the very frames that the reader takes off again
    have hwritten := foldlM_onEvent hforall ⟨[]⟩
    refine ⟨_, hwritten, fun n tableId links => ?_, ?_⟩
    · rw [BroadcastSink.logBytes, onEvents_log]
      exact foldl_recordBytes hforall []
    · rw [readEventLog, List.nil_append, readAll_frames_log hevents hforall]
      rfl
  · rw [encode, hvec]
    exact if_pos hlong
  · obtain ⟨payload, -, hle, rfl⟩ := encode_eq_ok.mp hframe
    refine ⟨payload.length, ?_, by rw [List.length_append, toLeBytes_length]⟩
    rw [List.take_left' (toLeBytes_length _)]
    exact parseLengthPrefix_toLeBytes hle

/-! ## A heartbeat and an all-in -/

/-- The name `Heartbeat`, as a string of nine bytes. -/
def heartbeatPayload : List UInt8 :=
  [0xa9, 0x48, 0x65, 0x61, 0x72, 0x74, 0x62, 0x65, 0x61, 0x74]

/-- How a heartbeat is encoded. -/
def heartbeatCodec : Codec ServerMessage where
  toVec
    | .heartbeat => some heartbeatPayload
    | _ => none
  fromSlice payload := if payload = heartbeatPayload then some .heartbeat else none

theorem heartbeatCodec_roundTrips : heartbeatCodec.RoundTrips := by
  intro value payload h
  cases value with
  | heartbeat =>
    obtain rfl := Option.some.inj h
    rfl
  | _ => cases h

/-- Seat 0 is all-in for 5: the name of the event with its two fields. -/
def allInPayload : List UInt8 :=
  [0x81, 0xab, 0x50, 0x6c, 0x61, 0x79, 0x65, 0x72, 0x41, 0x6c, 0x6c, 0x49, 0x6e, 0x92, 0x00, 0x05]

/-- How this event is encoded. -/
def allInCodec : Codec EngineEvent where
  toVec event := if event = .playerAllIn 0 5 then some allInPayload else none
  fromSlice payload := if payload = allInPayload then some (.playerAllIn 0 5) else none

theorem allInCodec_roundTrips : allInCodec.RoundTrips := by
  intro event payload h
  rw [allInCodec] at h
  dsimp only at h
  split at h
  case isTrue hevent =>
    obtain rfl := Option.some.inj h
    rw [hevent]
    rfl
  case isFalse => cases h

/-- Two heartbeats are read from a socket, and the event from a log. -/
theorem framing_round_trip_heartbeat :
    (∃ fs, encodeAll heartbeatCodec [.heartbeat, .heartbeat] = .ok fs ∧ fs.length = 2 ∧
      (messageReader heartbeatCodec).readAll fs.flatten =
        ([.heartbeat, .heartbeat], .closed, [])) ∧
    ∃ file, FileSink.onEvent allInCodec ⟨[]⟩ (.playerAllIn 0 5) = some file ∧
      readEventLog allInCodec file.bytes = .ok [.playerAllIn 0 5] := by
  obtain ⟨hmessages, hlogs, -, -⟩ :=
    framing_round_trip heartbeatCodec_roundTrips allInCodec_roundTrips
  constructor
  · obtain ⟨fs, hfs, hread, -⟩ := hmessages [.heartbeat, .heartbeat] fun v hv => by
      have hv : v = .heartbeat := by simpa using hv
      exact ⟨heartbeatPayload, by rw [hv]; rfl, by decide⟩
    refine ⟨fs, hfs, ?_, hread⟩
    obtain rfl := Except.ok.inj hfs
    rfl
  · obtain ⟨file, hfile, -, hread⟩ := hlogs [.playerAllIn 0 5] fun v hv => by
      have hv : v = .playerAllIn 0 5 := by simpa using hv
      exact ⟨allInPayload, by rw [hv]; rfl, by decide⟩
    exact ⟨file, by simpa using hfile, hread⟩

end VibePoker.Server
