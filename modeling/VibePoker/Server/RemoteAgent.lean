import VibePoker.Server.BroadcastSink

/-!
# Remote agents

`RemoteAgent::act` up to the point where it waits for the client: it registers
the prompt at the connection of its seat, and sends it.

## Main definitions

* `SeatLink.ask` — the prompt of a seat
* `HandOp.apply` — what a hand and the sessions do to the links of the seats
-/

namespace VibePoker.Server

open VibePoker.Game VibePoker.Net

/-- What an agent registers when it is shown an observation. -/
def PendingAction.ofObservation (tableId handId : ℕ) (obs : Observation) : PendingAction :=
  ⟨tableId, handId, obs.position, obs.legalActions⟩

/-- The message that asks the client. -/
def PendingAction.prompt (p : PendingAction) (deadlineMs : ℕ) : ServerMessage :=
  .prompt p.tableId p.handId p.seat p.legal deadlineMs

namespace SeatLink

/-- Ask the seat; a connection that departed is not asked. -/
def ask (link : SeatLink) (p : PendingAction) (deadlineMs : ℕ) : SeatLink :=
  if link.current.departed then link
  else { link with current := { link.current with pending := some p } }.fan (p.prompt deadlineMs)

theorem ask_sent (link : SeatLink) (p : PendingAction) (deadlineMs : ℕ) :
    (link.ask p deadlineMs).current.sent = link.current.sent ∨
      (link.ask p deadlineMs).current.sent = link.current.sent ++ [p.prompt deadlineMs] := by
  rw [ask]
  split
  · exact Or.inl rfl
  · exact Or.inr rfl

end SeatLink

/-! ## The links of a hand -/

variable {n : ℕ}

/-- What happens at the links of a hand: the engine's outputs, and between them what
sessions do to the connection of a seat. -/
inductive HandOp (n : ℕ)
  | output (o : Output n)
  | session (i : Fin n) (c : Connection)

namespace HandOp

/-- The engine's output, if it is one. -/
def output? : HandOp n → Option (Output n)
  | .output o => some o
  | .session _ _ => none

/-- One operation. A prompt is made by the agent of its seat. -/
def apply (handId deadlineMs : ℕ) (sink : BroadcastSink n) : HandOp n → BroadcastSink n
  | .output (.event ev) => sink.onEvent ev
  | .output (.notify _) => sink
  | .output (.prompt d obs) =>
    let asked := (sink.links d.seat).ask (.ofObservation sink.tableId handId obs) deadlineMs
    { sink with links := Function.update sink.links d.seat asked }
  | .session i c =>
    { sink with links := Function.update sink.links i ((sink.links i).replace c) }

end HandOp

end VibePoker.Server
