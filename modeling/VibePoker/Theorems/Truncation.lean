import VibePoker.Theorems.Framing

/-!
# Streams that break off

A stream of frames is cut after some bytes. Both readers deliver the frames that are
complete. What they report then depends on the bytes of the next frame: both take a
length prefix that is cut short for the end of the stream, and so a stream that breaks
off within its first bytes reads like one that is over.

## Main definitions

* `IsLogEntry` — a frame as a file sink writes it
* `CutReported`, `LogCutReported` — a cut within a frame is an error, and only that
* `SparesPrefix` — the cut is not within a length prefix

## Main results

* `cutReported_iff` — so it is unless the cut is within a length prefix
-/

namespace VibePoker.Net

open VibePoker.CS

variable {α : Type*} {codec : Codec α}

/-! ## The frame that the cut is in -/

/-- What a file sink writes for a value whose length fits the prefix. -/
def IsLogEntry (codec : Codec α) (frame : List UInt8) (value : α) : Prop :=
  ∃ payload, codec.toVec value = some payload ∧ payload.length < 2 ^ 32 ∧
    frame = toLeBytes payload.length ++ payload

theorem reads_of_isLogEntry (hcodec : codec.RoundTrips) {frame : List UInt8} {value : α}
    (h : IsLogEntry codec frame value) : (logReader codec).Reads frame value := by
  obtain ⟨payload, hvec, hlt, rfl⟩ := h
  exact reads_toLeBytes hcodec hvec hlt

theorem readExact_of_lt {count : ℕ} {input : List UInt8} (h : input.length < count) :
    readExact count input = none :=
  if_neg (Nat.not_le.mpr h)

/-- A frame cut off after its prefix. -/
theorem take_frame {payload : List UInt8} {size : ℕ} (h : lengthPrefixBytes ≤ size) :
    (toLeBytes payload.length ++ payload).take size =
      toLeBytes payload.length ++ payload.take (size - lengthPrefixBytes) := by
  rw [List.take_append, List.take_of_length_le ((toLeBytes_length _).trans_le h),
    toLeBytes_length]

/-- A message that is cut short is an error of the stream, unless the prefix is. -/
theorem readMessage_take {frame : List UInt8} {value : α} (hframe : encode codec value = .ok frame)
    {size : ℕ} (hsize : size < frame.length) :
    readMessage codec (frame.take size) =
      .error (if size < lengthPrefixBytes then .closed else .io) := by
  obtain ⟨payload, -, hle, rfl⟩ := encode_eq_ok.mp hframe
  rw [List.length_append, toLeBytes_length] at hsize
  by_cases hcutHead : size < lengthPrefixBytes
  · have hshort : ((toLeBytes payload.length ++ payload).take size).length < lengthPrefixBytes :=
      (List.length_take_le _ _).trans_lt hcutHead
    rw [readMessage, readExact_of_lt hshort, if_pos hcutHead]
  · have hshort : (payload.take (size - lengthPrefixBytes)).length < payload.length := by
      rw [List.length_take]
      omega
    rw [take_frame (Nat.not_lt.mp hcutHead), readMessage_toLeBytes hle, readExact_of_lt hshort,
      if_neg hcutHead]

/-- So is an entry of a log. -/
theorem readLogEntry_take {frame : List UInt8} {value : α} (hframe : IsLogEntry codec frame value)
    {size : ℕ} (hsize : size < frame.length) :
    readLogEntry codec (frame.take size) =
      .error (if size < lengthPrefixBytes then .eof else .io) := by
  obtain ⟨payload, -, hlt, rfl⟩ := hframe
  rw [List.length_append, toLeBytes_length] at hsize
  by_cases hcutHead : size < lengthPrefixBytes
  · have hshort : ((toLeBytes payload.length ++ payload).take size).length < lengthPrefixBytes :=
      (List.length_take_le _ _).trans_lt hcutHead
    rw [readLogEntry, readExact_of_lt hshort, if_pos hcutHead]
  · have hshort : (payload.take (size - lengthPrefixBytes)).length < payload.length := by
      rw [List.length_take]
      omega
    rw [take_frame (Nat.not_lt.mp hcutHead), readLogEntry_toLeBytes hlt, readExact_of_lt hshort,
      if_neg hcutHead]

/-! ## The stream that is cut -/

/-- The cut is not within a length prefix: it is between two frames, or behind the prefix of
the frame that it is in. -/
def SparesPrefix (frames : List (List UInt8)) (size : ℕ) : Prop :=
  (cutAt frames size).2 = 0 ∨ lengthPrefixBytes ≤ (cutAt frames size).2

instance (frames : List (List UInt8)) (size : ℕ) : Decidable (SparesPrefix frames size) :=
  inferInstanceAs (Decidable (_ ∨ _))

/-- What is read of a stream of frames cut after `size` bytes, when `ended` is what the reader
reports at the end: the values of the complete frames, and then the end if and only if the
cut is between two frames. -/
def CutReported {ε : Type*} (reader : Reader UInt8 ε α) (ended : ε) (frames : List (List UInt8))
    (values : List α) (size : ℕ) : Prop :=
  ∃ error rest, reader.readAll (frames.flatten.take size) =
      (values.take (cutAt frames size).1, error, rest) ∧
    (error = ended ↔ (cutAt frames size).2 = 0)

/-- A log cut after `size` bytes is read if the cut is between two frames, and is an error
otherwise. -/
def LogCutReported (codec : Codec α) (frames : List (List UInt8)) (values : List α)
    (size : ℕ) : Prop :=
  if (cutAt frames size).2 = 0 then
    readEventLog codec (frames.flatten.take size) = .ok (values.take (cutAt frames size).1)
  else ∃ error, readEventLog codec (frames.flatten.take size) = .error error

theorem exists_value_of_mem {isFrame : List UInt8 → α → Prop} {frames : List (List UInt8)}
    {values : List α} (h : List.Forall₂ isFrame frames values) {frame : List UInt8}
    (hframe : frame ∈ frames) : ∃ value, isFrame frame value := by
  induction h with
  | nil => cases hframe
  | cons hhead _ ih =>
    cases hframe with
    | head => exact ⟨_, hhead⟩
    | tail _ hmem => exact ih hmem

/-- A reader delivers the complete frames. It reports the end at a cut between two frames,
and `io` at a cut within one, unless it takes a prefix that is cut short for the end. -/
theorem readAll_cut {ε : Type*} {reader : Reader UInt8 ε α} (ended io : ε)
    {frames : List (List UInt8)} {values : List α} {isFrame : List UInt8 → α → Prop}
    (hframes : List.Forall₂ isFrame frames values)
    (hreads : ∀ frame value, isFrame frame value → reader.Reads frame value)
    (hempty : reader.read [] = .error ended)
    (htake : ∀ frame value, isFrame frame value → ∀ count < frame.length,
      reader.read (frame.take count) = .error (if count < lengthPrefixBytes then ended else io))
    (size : ℕ) :
    ∃ rest, reader.readAll (frames.flatten.take size) =
      (values.take (cutAt frames size).1,
        if (cutAt frames size).2 < lengthPrefixBytes then ended else io, rest) := by
  have hread := Reader.readAll_take (hframes.imp hreads) size
  have hpiece : reader.read (pieceAt frames size) =
      .error (if (cutAt frames size).2 < lengthPrefixBytes then ended else io) := by
    by_cases hcut : (cutAt frames size).2 = 0
    · rw [pieceAt, hcut, List.take_zero, hempty]
      rfl
    · obtain ⟨frame, hframe, hlt⟩ := exists_of_cutAt_pos hcut
      obtain ⟨value, hvalue⟩ := exists_value_of_mem hframes (List.mem_of_getElem? hframe)
      rw [pieceAt, List.getD_eq_getElem?_getD, hframe]
      exact htake frame value hvalue _ hlt
  rw [Reader.readAll_of_error hpiece, List.append_nil] at hread
  exact ⟨_, hread⟩

/-- A cut of a message stream is reported exactly when it spares the prefix. -/
theorem cutReported_messageReader (hcodec : codec.RoundTrips) {frames : List (List UInt8)}
    {values : List α} (h : List.Forall₂ (fun f v => encode codec v = .ok f) frames values)
    (size : ℕ) :
    CutReported (messageReader codec) .closed frames values size ↔ SparesPrefix frames size := by
  obtain ⟨rest, hread⟩ := readAll_cut .closed .io h (fun _ _ => reads_encode hcodec) rfl
    (fun _ _ hframe _ => readMessage_take hframe) size
  rw [CutReported, SparesPrefix, hread]
  by_cases hcutHead : (cutAt frames size).2 < lengthPrefixBytes
  · simp [hcutHead]
  · have hcut : (cutAt frames size).2 ≠ 0 := fun h => hcutHead (h ▸ by decide)
    simp [hcutHead, hcut, Nat.not_lt.mp hcutHead]

/-- So is a cut of a log. -/
theorem logCutReported_iff (hcodec : codec.RoundTrips) {frames : List (List UInt8)}
    {values : List α} (h : List.Forall₂ (IsLogEntry codec) frames values) (size : ℕ) :
    LogCutReported codec frames values size ↔ SparesPrefix frames size := by
  obtain ⟨rest, hread⟩ := readAll_cut .eof .io h (fun _ _ => reads_of_isLogEntry hcodec) rfl
    (fun _ _ hframe _ => readLogEntry_take hframe) size
  rw [LogCutReported, SparesPrefix, readEventLog, hread]
  by_cases hcutHead : (cutAt frames size).2 < lengthPrefixBytes
  · simp [hcutHead]
  · have hcut : (cutAt frames size).2 ≠ 0 := fun h => hcutHead (h ▸ by decide)
    simp [hcutHead, hcut, Nat.not_lt.mp hcutHead]

/-! ## The two readers -/

/-- For every stream of frames and every place to cut it, the readers deliver the complete
frames, and tell a cut within a frame from the end of the stream, if and only if the cut is
not within a length prefix. -/
theorem cutReported_iff (hcodec : codec.RoundTrips) :
    (∀ frames values, List.Forall₂ (fun f v => encode codec v = .ok f) frames values → ∀ size,
      CutReported (messageReader codec) .closed frames values size ↔ SparesPrefix frames size) ∧
    ∀ frames values, List.Forall₂ (IsLogEntry codec) frames values → ∀ size,
      LogCutReported codec frames values size ↔ SparesPrefix frames size :=
  ⟨fun _ _ h size => cutReported_messageReader hcodec h size,
    fun _ _ h size => logCutReported_iff hcodec h size⟩

/-! ## Two heartbeats and an all-in -/

open VibePoker.Server

/-- The frame of a heartbeat has fourteen bytes. -/
def heartbeatFrame : List UInt8 := toLeBytes 10 ++ heartbeatPayload

/-- The log entry of the all-in has twenty. -/
def allInFrame : List UInt8 := toLeBytes 16 ++ allInPayload

/-- Two heartbeats cut six bytes into the second one, and a log cut the same way. -/
theorem cutReported_iff_payload :
    CutReported (messageReader heartbeatCodec) .closed [heartbeatFrame, heartbeatFrame]
      [.heartbeat, .heartbeat] 20 ∧
    LogCutReported allInCodec [allInFrame, allInFrame] [.playerAllIn 0 5, .playerAllIn 0 5] 26 :=
  ⟨((cutReported_iff heartbeatCodec_roundTrips).1 _ _ (.cons rfl (.cons rfl .nil)) 20).mpr
      (by decide),
    ((cutReported_iff allInCodec_roundTrips).2 _ _ (.cons ⟨allInPayload, rfl, by decide, rfl⟩
      (.cons ⟨allInPayload, rfl, by decide, rfl⟩ .nil)) 26).mpr (by decide)⟩

/-- Cut two bytes into the second prefix, the stream of heartbeats counts as closed and the
log as over, as if one frame had been all. -/
theorem prefix_cut_unreported :
    (¬ CutReported (messageReader heartbeatCodec) .closed [heartbeatFrame, heartbeatFrame]
      [.heartbeat, .heartbeat] 16) ∧
    readEventLog allInCodec ([allInFrame, allInFrame].flatten.take 22) =
      .ok [.playerAllIn 0 5] := by
  constructor
  · rw [cutReported_messageReader heartbeatCodec_roundTrips (.cons rfl (.cons rfl .nil))]
    decide
  · have hframe : IsLogEntry allInCodec allInFrame (.playerAllIn 0 5) :=
      ⟨allInPayload, rfl, by decide, rfl⟩
    obtain ⟨rest, hread⟩ := readAll_cut .eof .io (.cons hframe (.cons hframe .nil))
      (fun _ _ => reads_of_isLogEntry allInCodec_roundTrips) rfl
      (fun _ _ hframe _ => readLogEntry_take hframe) 22
    rw [readEventLog, hread]
    rfl

end VibePoker.Net
