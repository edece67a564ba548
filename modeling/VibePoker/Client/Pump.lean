import VibePoker.Net.Frame
import VibePoker.Net.Protocol

/-!
# The native transport

The pump of the native client: it reads framed messages off a socket and writes the
host's messages to it. `select!` polls the two branches in any order, and when one of them
completes it drops the other one's future. What `read_one` has taken off the socket is
then in its own buffer only, and goes with it.

The bytes of the stream arrive in any portions, and a read takes any number of those that
have arrived. The stream may end at any byte; other errors of a read (`read`, and
`read payload` before the end), which break off likewise, are left out.

## Main definitions

* `ReadOne` — a `read_one` future between two polls
* `Pump.step` — one step of the network, the host or the pump
-/

namespace VibePoker.Client

open VibePoker.Net

/-- Why a transport is lost. -/
inductive LostReason
  /-- `server closed connection` -/
  | closed
  /-- `read payload` -/
  | readPayload
  | frame (error : FrameError)
  | decode
  | encode (error : FrameError)
  | write
deriving DecidableEq, Repr

inductive TransportIn
  | connected
  | message (msg : ServerMessage)
  | lost (reason : LostReason)

/-- The message that is delivered, if any. -/
def TransportIn.message? : TransportIn → Option ServerMessage
  | .message msg => some msg
  | _ => none

/-! ## The future of `read_one` -/

/-- The bytes it has got so far, of the prefix or of a payload of length `len`. -/
inductive ReadOne
  | lengthPrefix (got : List UInt8)
  | payload (len : ℕ) (got : List UInt8)
deriving DecidableEq, Repr

namespace ReadOne

/-- A future that has not been polled. -/
def fresh : ReadOne := .lengthPrefix []

/-- The number of bytes that its `read_exact` still waits for. -/
def missing : ReadOne → ℕ
  | .lengthPrefix got => lengthPrefixBytes - got.length
  | .payload len got => len - got.length

/-- How a poll comes out. -/
inductive Poll
  | pending (future : ReadOne)
  | ready (outcome : Except LostReason ServerMessage)

def finish (codec : Codec ServerMessage) (payload : List UInt8) : Poll :=
  match Net.decode codec payload with
  | .error _ => .ready (.error .decode)
  | .ok msg => .ready (.ok msg)

/-- Go on with some of the bytes it waits for. A payload of no bytes is there at once. -/
def poll (codec : Codec ServerMessage) (bytes : List UInt8) : ReadOne → Poll
  | .lengthPrefix got =>
    if (got ++ bytes).length < lengthPrefixBytes then .pending (.lengthPrefix (got ++ bytes))
    else
      match parseLengthPrefix (got ++ bytes) with
      | .error error => .ready (.error (.frame error))
      | .ok len => if len = 0 then finish codec [] else .pending (.payload len [])
  | .payload len got =>
    if (got ++ bytes).length < len then .pending (.payload len (got ++ bytes))
    else finish codec (got ++ bytes)

/-- What it reports when the stream ends. -/
def pollEnd : ReadOne → LostReason
  | .lengthPrefix _ => .closed
  | .payload _ _ => .readPayload

end ReadOne

/-! ## The pump -/

/-- The pump with its socket and its channels. `incoming` is on its way to the socket,
`socket` has arrived there; `listening` is whether the host still takes messages. -/
structure Pump where
  incoming : List UInt8
  socket : List UInt8
  ended : Bool
  reading : ReadOne
  outbound : List ClientMessage
  written : List UInt8
  inbound : List TransportIn
  listening : Bool
  stopped : Bool

inductive PumpStep
  /-- So many bytes arrive. -/
  | arrive (count : ℕ)
  /-- No further bytes will arrive. -/
  | streamEnds
  /-- The host sends a message. -/
  | send (msg : ClientMessage)
  /-- The host drops its receiver. -/
  | unlisten
  /-- The read future is polled and gets so many bytes. -/
  | read (count : ℕ)
  /-- The read future is polled and finds the end of the stream. -/
  | readEnd
  /-- The outbound branch completes with a message; `writes` is whether writing succeeds. -/
  | takeOutbound (writes : Bool)
  /-- The outbound branch completes because the host has dropped its sender. -/
  | hangUp

namespace Pump

/-- A connected transport whose server sends these bytes. -/
def connected (bytes : List UInt8) : Pump :=
  ⟨bytes, [], false, .fresh, [], [], [.connected], true, false⟩

/-- The messages delivered to the host. -/
def messages (p : Pump) : List ServerMessage := p.inbound.filterMap TransportIn.message?

def lose (p : Pump) (reason : LostReason) : Pump :=
  { p with inbound := p.inbound ++ [.lost reason], stopped := true }

/-- The read branch completes with a message. -/
def deliver (p : Pump) (msg : ServerMessage) : Pump :=
  -- without a receiver the pump ends, and the message with it
  if p.listening then
    { p with inbound := p.inbound ++ [.message msg], reading := .fresh }
  else { p with stopped := true }

/-- The outbound branch completes: the read future is dropped, and the message written. -/
def forward (codec : Codec ClientMessage) (p : Pump) (msg : ClientMessage) (writes : Bool) :
    Pump :=
  let p := { p with reading := .fresh }
  match Net.encode codec msg with
  | .error error => p.lose (.encode error)
  | .ok bytes => if writes then { p with written := p.written ++ bytes } else p.lose .write

def step (server : Codec ServerMessage) (client : Codec ClientMessage) (p : Pump) :
    PumpStep → Option Pump
  | .arrive count =>
    if p.ended then none
    else some { p with
      incoming := p.incoming.drop count
      socket := p.socket ++ p.incoming.take count }
  | .streamEnds => some { p with ended := true }
  | .send msg => some { p with outbound := p.outbound ++ [msg] }
  | .unlisten => some { p with listening := false }
  | .read count =>
    -- a read takes bytes that have arrived, and no more than it waits for
    if p.stopped ∨ p.socket.length < count ∨ p.reading.missing < count ∨ count = 0 then none
    else
      let q := { p with socket := p.socket.drop count }
      match p.reading.poll server (p.socket.take count) with
      | .pending future => some { q with reading := future }
      | .ready (.error reason) => some (q.lose reason)
      | .ready (.ok msg) => some (q.deliver msg)
  | .readEnd =>
    -- the end is found when all bytes are read
    if p.stopped ∨ p.socket ≠ [] ∨ ¬p.ended then none else some (p.lose p.reading.pollEnd)
  | .takeOutbound writes =>
    if p.stopped then none
    else match p.outbound with
      | [] => none
      | msg :: outbound => some ({ p with outbound := outbound }.forward client msg writes)
  | .hangUp => if p.stopped ∨ p.outbound ≠ [] then none else some { p with stopped := true }

end Pump

end VibePoker.Client
