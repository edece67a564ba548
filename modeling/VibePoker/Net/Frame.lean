import Mathlib.Data.Nat.Digits.Defs
import VibePoker.CS.Framing
import VibePoker.Game.State

/-!
# Frames

Length-prefixed messages, and the event logs that have the same layout. The encoding of
a value is left to a codec; what a stream delivers until it ends is a list of bytes, so
that `read_exact` fails only at the end of it.

## Main definitions

* `Codec` — the encoding of values, with what the framing relies on as `RoundTrips`
* `encode`, `messageReader` — what is written to a socket, and how it is read
* `FileSink`, `readEventLog` — an event log, and how it is read

## Main results

* `fromLeBytes_toLeBytes` — the length prefix
* `reads_encode`, `reads_logEntry` — frames are read as their values
-/

namespace VibePoker.Net

open VibePoker.CS VibePoker.Game

variable {α : Type*}

/-! ## Length prefix -/

def lengthPrefixBytes : ℕ := 4

def maxFrameBytes : ℕ := 4 * 1024 * 1024

/-- `(x as u32).to_le_bytes()` -/
def toLeBytes (x : ℕ) : List UInt8 :=
  [.ofNat x, .ofNat (x / 256), .ofNat (x / 256 ^ 2), .ofNat (x / 256 ^ 3)]

/-- `u32::from_le_bytes` -/
def fromLeBytes (bytes : List UInt8) : ℕ := Nat.ofDigits 256 (bytes.map UInt8.toNat)

@[simp] theorem toLeBytes_length (x : ℕ) : (toLeBytes x).length = lengthPrefixBytes := rfl

theorem fromLeBytes_toLeBytes {x : ℕ} (h : x < 2 ^ 32) : fromLeBytes (toLeBytes x) = x := by
  simp only [fromLeBytes, toLeBytes, List.map_cons, List.map_nil, Nat.ofDigits_cons,
    Nat.ofDigits_nil, UInt8.toNat_ofNat']
  omega

/-! ## Messages -/

inductive FrameError
  | tooLarge (len : ℕ)
  | encode
  | decode
deriving DecidableEq, Repr

/-- How values become bytes; either direction may fail. -/
structure Codec (α : Type*) where
  toVec : α → Option (List UInt8)
  fromSlice : List UInt8 → Option α

/-- What was encoded is decoded to the same value. -/
def Codec.RoundTrips (codec : Codec α) : Prop :=
  ∀ value payload, codec.toVec value = some payload → codec.fromSlice payload = some value

/-- The value can be encoded, and its payload fits the limit. -/
def Codec.Fits (codec : Codec α) (value : α) : Prop :=
  ∃ payload, codec.toVec value = some payload ∧ payload.length ≤ maxFrameBytes

variable (codec : Codec α)

/-- The frame of a value. -/
def encode (value : α) : Except FrameError (List UInt8) :=
  match codec.toVec value with
  | none => .error .encode
  | some payload =>
    if payload.length > maxFrameBytes then .error (.tooLarge payload.length)
    else .ok (toLeBytes payload.length ++ payload)

/-- The number of payload bytes that a length prefix announces. -/
def parseLengthPrefix (lengthPrefix : List UInt8) : Except FrameError ℕ :=
  let len := fromLeBytes lengthPrefix
  if len > maxFrameBytes then .error (.tooLarge len) else .ok len

def decode (payload : List UInt8) : Except FrameError α :=
  match codec.fromSlice payload with
  | none => .error .decode
  | some value => .ok value

inductive WireError
  | io
  | frame (error : FrameError)
  | closed
deriving DecidableEq, Repr

/-- The next `count` bytes of what a stream delivers until its end. -/
def readExact (count : ℕ) (input : List UInt8) : Option (List UInt8 × List UInt8) :=
  if count ≤ input.length then some (input.take count, input.drop count) else none

theorem readExact_append (bytes rest : List UInt8) :
    readExact bytes.length (bytes ++ rest) = some (bytes, rest) := by
  simp [readExact]

theorem readExact_length {count : ℕ} {input bytes rest : List UInt8}
    (h : readExact count input = some (bytes, rest)) : rest.length + count = input.length := by
  rw [readExact] at h
  split at h
  · obtain ⟨-, rfl⟩ := Prod.mk.inj (Option.some.inj h)
    rw [List.length_drop]
    omega
  · cases h

/-- Read one message. A stream that ends within the prefix counts as closed. -/
def readMessage (input : List UInt8) : Except WireError (α × List UInt8) :=
  match readExact lengthPrefixBytes input with
  | none => .error .closed
  | some (lengthPrefix, input) =>
    match parseLengthPrefix lengthPrefix with
    | .error error => .error (.frame error)
    | .ok len =>
      match readExact len input with
      | none => .error .io
      | some (payload, rest) =>
        match decode codec payload with
        | .error error => .error (.frame error)
        | .ok value => .ok (value, rest)

theorem readMessage_length {input rest : List UInt8} {value : α}
    (h : readMessage codec input = .ok (value, rest)) : rest.length < input.length := by
  rw [readMessage] at h
  split at h
  case h_1 => cases h
  case h_2 lengthPrefix input' hhead =>
    split at h
    case h_1 => cases h
    case h_2 len _ =>
      split at h
      case h_1 => cases h
      case h_2 payload rest' hpayload =>
        split at h
        case h_1 => cases h
        case h_2 =>
          cases h
          have hhead := readExact_length hhead
          have hpayload := readExact_length hpayload
          rw [lengthPrefixBytes] at hhead
          omega

/-- The messages of a stream. -/
def messageReader : Reader UInt8 WireError α := ⟨readMessage codec, readMessage_length codec⟩

@[simp] theorem messageReader_read : (messageReader codec).read = readMessage codec := rfl

/-! ## Event logs -/

/-- What a `FileSink` has written. -/
structure FileSink where
  bytes : List UInt8

/-- Append an event; an event that cannot be serialized panics. -/
def FileSink.onEvent (codec : Codec EngineEvent) (sink : FileSink) (event : EngineEvent) :
    Option FileSink := do
  let payload ← codec.toVec event
  some ⟨sink.bytes ++ toLeBytes payload.length ++ payload⟩

inductive LogError
  /-- The log is over. -/
  | eof
  | io
  | invalidData
deriving DecidableEq, Repr

/-- Read one event of a log, of any length. -/
def readLogEntry (input : List UInt8) : Except LogError (α × List UInt8) :=
  match readExact lengthPrefixBytes input with
  | none => .error .eof
  | some (lengthPrefix, input) =>
    match readExact (fromLeBytes lengthPrefix) input with
    | none => .error .io
    | some (frame, rest) =>
      match codec.fromSlice frame with
      | none => .error .invalidData
      | some event => .ok (event, rest)

theorem readLogEntry_length {input rest : List UInt8} {event : α}
    (h : readLogEntry codec input = .ok (event, rest)) : rest.length < input.length := by
  rw [readLogEntry] at h
  split at h
  case h_1 => cases h
  case h_2 lengthPrefix input' hhead =>
    split at h
    case h_1 => cases h
    case h_2 frame rest' hframe =>
      split at h
      case h_1 => cases h
      case h_2 =>
        cases h
        have hhead := readExact_length hhead
        have hframe := readExact_length hframe
        rw [lengthPrefixBytes] at hhead
        omega

def logReader : Reader UInt8 LogError α := ⟨readLogEntry codec, readLogEntry_length codec⟩

@[simp] theorem logReader_read : (logReader codec).read = readLogEntry codec := rfl

/-- All events of a log. -/
def readEventLog (log : List UInt8) : Except LogError (List α) :=
  let events := (logReader codec).readAll log
  if events.2.1 = .eof then .ok events.1 else .error events.2.1

/-! ## Frames are read as their values -/

variable {codec} {value : α} {payload frame : List UInt8}

/-- What is encoded fits the limit. -/
theorem encode_eq_ok : encode codec value = .ok frame ↔
    ∃ payload, codec.toVec value = some payload ∧ payload.length ≤ maxFrameBytes ∧
      frame = toLeBytes payload.length ++ payload := by
  rw [encode]
  cases hvec : codec.toVec value with
  | none => simp
  | some payload =>
    by_cases hlong : payload.length > maxFrameBytes
    · simp [hlong, Nat.not_le.mpr hlong]
    · simp [hlong, Nat.not_lt.mp hlong, eq_comm]

/-- A length within the limit fits the prefix. -/
theorem fromLeBytes_of_le {len : ℕ} (h : len ≤ maxFrameBytes) : fromLeBytes (toLeBytes len) = len :=
  fromLeBytes_toLeBytes (h.trans_lt (by decide))

theorem parseLengthPrefix_toLeBytes {len : ℕ} (h : len ≤ maxFrameBytes) :
    parseLengthPrefix (toLeBytes len) = .ok len := by
  rw [parseLengthPrefix, fromLeBytes_of_le h]
  exact if_neg (Nat.not_lt.mpr h)

theorem readExact_toLeBytes (len : ℕ) (input : List UInt8) :
    readExact lengthPrefixBytes (toLeBytes len ++ input) = some (toLeBytes len, input) := by
  rw [← toLeBytes_length len]
  exact readExact_append _ _

/-- Behind a length within the limit, the payload is read. -/
theorem readMessage_toLeBytes {len : ℕ} (hle : len ≤ maxFrameBytes) (input : List UInt8) :
    readMessage codec (toLeBytes len ++ input) =
      match readExact len input with
      | none => .error .io
      | some (payload, rest) =>
        match decode codec payload with
        | .error error => .error (.frame error)
        | .ok value => .ok (value, rest) := by
  rw [readMessage, readExact_toLeBytes]
  dsimp only
  rw [parseLengthPrefix_toLeBytes hle]

theorem readLogEntry_toLeBytes {len : ℕ} (hlt : len < 2 ^ 32) (input : List UInt8) :
    readLogEntry codec (toLeBytes len ++ input) =
      match readExact len input with
      | none => .error .io
      | some (frame, rest) =>
        match codec.fromSlice frame with
        | none => .error .invalidData
        | some event => .ok (event, rest) := by
  rw [readLogEntry, readExact_toLeBytes]
  dsimp only
  rw [fromLeBytes_toLeBytes hlt]

/-- The frame of a value is read as the value. -/
theorem reads_encode (hcodec : codec.RoundTrips) (h : encode codec value = .ok frame) :
    (messageReader codec).Reads frame value := by
  obtain ⟨payload, hvec, hle, rfl⟩ := encode_eq_ok.mp h
  intro rest
  rw [messageReader_read, List.append_assoc, readMessage_toLeBytes hle, readExact_append]
  dsimp only
  rw [decode, hcodec value payload hvec]

/-- So it is as an entry of a log, whose length has only to fit the prefix. -/
theorem reads_toLeBytes (hcodec : codec.RoundTrips) (hvec : codec.toVec value = some payload)
    (hlt : payload.length < 2 ^ 32) :
    (logReader codec).Reads (toLeBytes payload.length ++ payload) value := by
  intro rest
  rw [logReader_read, List.append_assoc, readLogEntry_toLeBytes hlt, readExact_append]
  dsimp only
  rw [hcodec value payload hvec]

theorem reads_logEntry (hcodec : codec.RoundTrips) (h : encode codec value = .ok frame) :
    (logReader codec).Reads frame value := by
  obtain ⟨payload, hvec, hle, rfl⟩ := encode_eq_ok.mp h
  exact reads_toLeBytes hcodec hvec (hle.trans_lt (by decide))

end VibePoker.Net
