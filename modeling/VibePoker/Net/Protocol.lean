import VibePoker.Game.State

/-!
# Wire protocol

The messages that clients and the server exchange. Identifiers are natural
numbers; framing and encoding are left to the transport.
-/

namespace VibePoker.Net

open VibePoker.Game

/-- Version announced in `Welcome` and checked in the handshake. -/
def protocolVersion : ℕ := 5

/-- Public summary of a table for the lobby. -/
structure TableInfo where
  tableId : ℕ
  name : String
  smallBlind : ℕ
  bigBlind : ℕ
  maxSeats : ℕ
  seated : ℕ
  defaultBuyIn : ℕ
deriving DecidableEq, Repr

/-- One seat's public state. -/
structure SeatInfo where
  seat : ℕ
  playerId : ℕ
  username : String
  stack : ℕ
deriving DecidableEq, Repr

/-- Aggregate statistics of a player across sessions. -/
structure LifetimeStats where
  hands : ℕ
  voluntaryPf : ℕ
  raisedPf : ℕ
  aggressiveActions : ℕ
  passiveActions : ℕ
  showdowns : ℕ
  chipDelta : ℤ
deriving DecidableEq, Repr, Inhabited

/-- How a client proves its identity. -/
inductive AuthMode
  | password (identifier password : String)
  | session (key : String)
deriving DecidableEq, Repr

/-- Messages a client sends to the server. -/
inductive ClientMessage
  | register (protocolVersion : ℕ) (email username password : String)
      (deviceLabel : Option String)
  | authenticate (protocolVersion : ℕ) (mode : AuthMode) (deviceLabel : Option String)
  | listTables
  | joinTable (tableId buyIn : ℕ)
  | leaveTable (tableId : ℕ)
  | submitAction (tableId handId : ℕ) (action : Action)
  | requestReplay (handId : ℕ)
  | heartbeat
  | disconnect
deriving DecidableEq, Repr

/-- Messages the server sends to a client. -/
inductive ServerMessage
  | welcome (protocolVersion playerId : ℕ) (username sessionKey : String)
      (stats : LifetimeStats)
  | rejected (protocolVersion : ℕ) (reason : String)
  | tableList (tables : List TableInfo)
  | joinedTable (tableId seat : ℕ) (seats : List SeatInfo)
  | leftTable (tableId : ℕ)
  | tableEvent (tableId : ℕ) (event : EngineEvent)
  | tableState (tableId : ℕ) (seats : List SeatInfo) (button : ℕ)
  | prompt (tableId handId seat : ℕ) (legal : LegalActions) (deadlineMs : ℕ)
  | actionRejected (reason : String)
  | replayEvents (handId : ℕ) (events : List ServerMessage)
  | heartbeat
  | goodbye (reason : String)

/-! ## Credentials -/

/-- `u8::is_ascii_alphanumeric` -/
def isAsciiAlphanumeric (c : UInt8) : Bool :=
  (48 ≤ c && c ≤ 57) || (65 ≤ c && c ≤ 90) || (97 ≤ c && c ≤ 122)

/-- Usernames have 3 to 24 ASCII letters, digits, `_`, `-` or `.`, the first of
them a letter or digit. -/
def isValidUsername (name : String) : Bool :=
  match name.toUTF8.toList with
  | [] => false
  | first :: rest =>
    let bytes := first :: rest
    3 ≤ bytes.length && bytes.length ≤ 24 && isAsciiAlphanumeric first &&
      bytes.all fun c => isAsciiAlphanumeric c || c = 95 || c = 45 || c = 46

/-- The characters with the Unicode property `White_Space`. -/
def isWhitespace (c : Char) : Bool :=
  (9 ≤ c.toNat && c.toNat ≤ 13) || (0x2000 ≤ c.toNat && c.toNat ≤ 0x200a) ||
    c.toNat ∈ [0x20, 0x85, 0xa0, 0x1680, 0x2028, 0x2029, 0x202f, 0x205f, 0x3000]

/-- The control characters of Unicode. -/
def isControl (c : Char) : Bool :=
  c.toNat < 0x20 || (0x7f ≤ c.toNat && c.toNat < 0xa0)

/-- E-mail addresses have one `@` with something before it, and after it a domain
with a dot. -/
def isValidEmail (email : String) : Bool :=
  3 ≤ email.utf8ByteSize && email.utf8ByteSize ≤ 254 &&
    match email.toList.splitOn '@' with
    | [name, domain] => name ≠ [] && domain.contains '.' &&
        !email.toList.any fun c => isWhitespace c || isControl c
    | _ => false

def isValidPassword (password : String) : Bool :=
  8 ≤ password.utf8ByteSize && password.utf8ByteSize ≤ 128

end VibePoker.Net
