import VibePoker.Server.RemoteAgent

/-!
# Replays

A seat of a running hand has two writers. The thread of the hand delivers a message by
recording it in the replay buffer and putting it into the outbound queue: an event in
this order, a prompt in the other one. The session's reader serves `RequestReplay` by
taking a snapshot of the buffer and putting it into the same queue. Each of these is one
step here; between them anything else may be sent to the connection.

The messages of the queue carry the hand they belong to, and a request what the thread
has done since its snapshot. Neither has a counterpart in the code.

## Main definitions

* `Delivery` — what a hand delivers to a seat
* `ReplaySeat.step` — one step of the hand's thread or of the session

## Main results

* `onEvent_links` — the sink's handling of an event is such a delivery to each seat
* `run_delivery` — the steps of a delivery, without any others between them
-/

namespace VibePoker.Server

open VibePoker.Game VibePoker.Net

variable {n : ℕ}

/-! ## Deliveries -/

inductive Delivery
  /-- Begin a buffer for a hand, and deliver its first event. -/
  | handStarted (handId : ℕ) (msg : ServerMessage)
  | event (msg : ServerMessage)
  /-- Deliver the last event of the hand, and seal the buffer. -/
  | handEnded (msg : ServerMessage)
  | prompt (msg : ServerMessage)

/-- The delivery as a whole. -/
def Delivery.run (link : SeatLink) : Delivery → SeatLink
  | .handStarted handId msg => (link.replayBegin handId).fan msg
  | .event msg => link.fan msg
  | .handEnded msg => (link.fan msg).replayEnd
  | .prompt msg => { link with current := link.current.trySend msg }.replayPush msg

/-- What the sink delivers to a seat for an event. -/
def BroadcastSink.delivery? (sink : BroadcastSink n) (i : Fin n) (event : EngineEvent) :
    Option Delivery :=
  match event with
  | .handStarted handId _ _ => some (.handStarted handId (.tableEvent sink.tableId event))
  | .holeCardsDealt seat _ =>
    if i.val = seat then some (.event (.tableEvent sink.tableId event)) else none
  | .handEnded handId result => some (.handEnded
      (.tableEvent sink.tableId (.handEnded handId (sink.filteredHandEnd (some i) result))))
  | _ => some (.event (.tableEvent sink.tableId event))

/-- The sink's handling of an event is a delivery to each seat that is told of it. -/
theorem onEvent_links (sink : BroadcastSink n) (i : Fin n) (event : EngineEvent) :
    (sink.onEvent event).links i =
      ((sink.delivery? i event).map (Delivery.run (sink.links i))).getD (sink.links i) := by
  cases event with
  | holeCardsDealt seat cards =>
    simp only [BroadcastSink.onEvent, BroadcastSink.record, BroadcastSink.sendTo,
      BroadcastSink.delivery?]
    split <;> rfl
  | _ => rfl

/-- The prompt of an agent is delivered likewise, once it is registered. -/
theorem ask_eq_run {link : SeatLink} (h : link.current.departed = false) (p : PendingAction)
    (deadlineMs : ℕ) : link.ask p deadlineMs = (Delivery.prompt (p.prompt deadlineMs)).run
      { link with current := { link.current with pending := some p } } := by
  simp only [SeatLink.ask, h, Bool.false_eq_true, if_false, SeatLink.fan, Delivery.run,
    SeatLink.replayPush]
  split <;> rfl

/-! ## Steps -/

/-- Where the thread is in a delivery; `last` is set for the last event of a hand. -/
inductive Delivering
  | idle
  | beginning (handId : ℕ) (msg : ServerMessage)
  | pushing (msg : ServerMessage) (last : Bool)
  | sending (msg : ServerMessage) (last : Bool)
  | asking (msg : ServerMessage)
  | recording (msg : ServerMessage)
  | sealing

/-- Where a delivery begins. -/
def Delivery.start : Delivery → Delivering
  | .handStarted handId msg => .beginning handId msg
  | .event msg => .pushing msg false
  | .handEnded msg => .pushing msg true
  | .prompt msg => .asking msg

/-- How many steps a delivery takes. -/
def Delivery.length : Delivery → ℕ
  | .handStarted _ _ => 3
  | .event _ => 2
  | .handEnded _ => 3
  | .prompt _ => 2

/-- How a snapshot cuts the delivery under way. -/
inductive Cut
  /-- The message in delivery, if any, is neither recorded nor sent. -/
  | whole
  /-- It is recorded but not sent. -/
  | pushed
  /-- It is sent but not recorded. -/
  | sent
deriving DecidableEq, Repr

def Delivering.cut : Delivering → Cut
  | .sending _ _ => .pushed
  | .recording _ => .sent
  | _ => .whole

/-- A request whose snapshot is taken: `cut` is how it cut the delivery under way, `sends`
the number of messages of the hand that were sent since. -/
structure Request where
  handId : ℕ
  events : List ServerMessage
  cut : Cut
  sends : ℕ

/-- What is put into the outbound queue. -/
inductive Queued
  | live (handId : ℕ) (msg : ServerMessage)
  | replay (r : Request)
  | other (msg : ServerMessage)

def Queued.message : Queued → ServerMessage
  | .live _ msg => msg
  | .replay r => .replayEvents r.handId r.events
  | .other msg => msg

/-- The messages of a hand, in the order in which they were sent. -/
def liveOf (handId : ℕ) (queue : List Queued) : List ServerMessage :=
  queue.filterMap fun
    | .live hand msg => if hand = handId then some msg else none
    | _ => none

/-- A seat, its connection's queue and its two writers; `hand` is the last hand begun. -/
structure ReplaySeat where
  link : SeatLink
  hand : ℕ
  thread : Delivering
  request : Option Request
  queue : List Queued

/-- One step of the thread or of the session. -/
inductive ReplayStep
  | deliver (d : Delivery)
  | thread
  | snapshot (handId : ℕ)
  | reply
  | other (msg : ServerMessage)

namespace ReplaySeat

/-- A seat that has just been taken, at a table whose last hand is `hand`. -/
def new (c : Connection) (hand : ℕ) : ReplaySeat := ⟨.new c, hand, .idle, none, []⟩

def enqueue (s : ReplaySeat) (q : Queued) : ReplaySeat :=
  { s with
    link := { s.link with current := s.link.current.trySend q.message }
    queue := s.queue ++ [q] }

/-- Send a message of the running hand. -/
def sendLive (s : ReplaySeat) (msg : ServerMessage) : ReplaySeat :=
  { s.enqueue (.live s.hand msg) with
    request := s.request.map fun r =>
      if r.handId = s.hand then { r with sends := r.sends + 1 } else r }

/-- The numbers of the hands of a table go up; everything else belongs to a hand that has
been started and is not over. -/
def accepts (s : ReplaySeat) : Delivery → Prop
  | .handStarted handId _ => s.hand < handId
  | _ => s.link.replay.handId = some s.hand

instance (s : ReplaySeat) (d : Delivery) : Decidable (s.accepts d) := by
  cases d <;> unfold accepts <;> infer_instance

/-- The next step of the delivery under way. -/
def runThread (s : ReplaySeat) : Option ReplaySeat :=
  match s.thread with
  | .idle => none
  | .beginning handId msg => some { s with
      link := s.link.replayBegin handId
      hand := handId
      thread := .pushing msg false }
  | .pushing msg last => some { s with
      link := s.link.replayPush msg
      thread := .sending msg last }
  | .sending msg last => some { s.sendLive msg with
      thread := if last then .sealing else .idle }
  | .asking msg => some { s.sendLive msg with thread := .recording msg }
  | .recording msg => some { s with
      link := s.link.replayPush msg
      thread := .idle }
  | .sealing => some { s with
      link := s.link.replayEnd
      thread := .idle }

/-- A request that does not match the buffer is rejected, by a message like any other. -/
def step (s : ReplaySeat) : ReplayStep → Option ReplaySeat
  | .deliver d =>
    match s.thread with
    | .idle => if s.accepts d then some { s with thread := d.start } else none
    | _ => none
  | .thread => s.runThread
  | .snapshot handId =>
    if s.request.isSome then none
    else match s.link.replaySnapshot handId with
      | none => some s
      | some events => some { s with request := some ⟨handId, events, s.thread.cut, 0⟩ }
  | .reply =>
    match s.request with
    | none => none
    | some r => some { s.enqueue (.replay r) with request := none }
  | .other msg => some (s.enqueue (.other msg))

/-- The steps of a delivery, without any others between them, are the delivery. -/
theorem run_delivery {s : ReplaySeat} {d : Delivery} (hidle : s.thread = .idle)
    (haccepts : s.accepts d) : ∃ s', (.deliver d :: List.replicate d.length .thread).foldlM step s =
      some s' ∧ s'.link = d.run s.link ∧ s'.thread = .idle := by
  rw [List.foldlM_cons, step, hidle]
  dsimp only
  rw [if_pos haccepts]
  cases d
  all_goals
    refine ⟨_, rfl, ?_, rfl⟩
    simp [Delivery.run, SeatLink.fan, sendLive, enqueue, Queued.message]

end ReplaySeat

end VibePoker.Server
