import VibePoker.Server.Connection

/-!
# The broadcast sink

`BroadcastSink` fans the events of a hand out to the seats. Hole cards go to
their owner only, and the result of the hand is masked for each recipient unless
the hand was shown down. The log that the sink also keeps holds the events as
they are; its encoding is left out.
-/

namespace VibePoker.Server

open VibePoker.Core VibePoker.Game VibePoker.Net

variable {n : ℕ}

structure BroadcastSink (n : ℕ) where
  tableId : ℕ
  links : Fin n → SeatLink
  folded : Finset ℕ
  boardCards : ℕ
  log : List EngineEvent

namespace BroadcastSink

def new (tableId : ℕ) (links : Fin n → SeatLink) : BroadcastSink n := ⟨tableId, links, ∅, 0, []⟩

def record (sink : BroadcastSink n) (event : EngineEvent) : BroadcastSink n :=
  { sink with log := sink.log ++ [event] }

/-- Send each seat its version of an event. -/
def fanEach (sink : BroadcastSink n) (event : Fin n → EngineEvent) : BroadcastSink n :=
  { sink with links := fun i => (sink.links i).fan (.tableEvent sink.tableId (event i)) }

def broadcastAll (sink : BroadcastSink n) (event : EngineEvent) : BroadcastSink n :=
  sink.fanEach fun _ => event

def sendTo (sink : BroadcastSink n) (engineSeat : ℕ) (event : EngineEvent) : BroadcastSink n :=
  { sink with
    links := fun i =>
      if i = engineSeat then (sink.links i).fan (.tableEvent sink.tableId event)
      else sink.links i }

/-- The hand was shown down: the river is dealt and two seats are not folded. -/
def showdown (sink : BroadcastSink n) : Bool :=
  5 ≤ sink.boardCards && 2 ≤ (Finset.univ.filter fun i : Fin n => i.val ∉ sink.folded).card

/-- A seat's outcome as a recipient may see it. -/
def filteredOutcome (sink : BroadcastSink n) (recipient : Option ℕ) (o : SeatOutcome) :
    SeatOutcome :=
  let isSelf := recipient = some o.seat
  let reveals := sink.showdown && o.seat ∉ sink.folded
  if ¬isSelf ∧ ¬reveals then { o with holeCards := none } else o

/-- The result of the hand as a recipient may see it. -/
def filteredHandEnd (sink : BroadcastSink n) (recipient : Option ℕ) (result : HandResult) :
    HandResult :=
  { result with seats := result.seats.map (sink.filteredOutcome recipient) }

def onEvent (sink : BroadcastSink n) (event : EngineEvent) : BroadcastSink n :=
  let sink := sink.record event
  match event with
  | .handStarted handId _ _ =>
    { sink with links := fun i => (sink.links i).replayBegin handId }.broadcastAll event
  | .holeCardsDealt seat _ => sink.sendTo seat event
  | .actionTaken seat action _ =>
    let folded := if action = .fold then insert seat sink.folded else sink.folded
    { sink with folded := folded }.broadcastAll event
  | .boardDealt _ cards =>
    { sink with boardCards := sink.boardCards + cards.length }.broadcastAll event
  | .handEnded handId result =>
    -- the replay still has the masked result when it is dropped
    let sent := sink.fanEach fun i =>
      .handEnded handId (sink.filteredHandEnd (some i) result)
    { sent with
      links := fun i => (sent.links i).replayEnd
      folded := ∅
      boardCards := 0 }
  | .playerAllIn _ _ => sink.broadcastAll event

/-- A whole stream of events. -/
def onEvents (sink : BroadcastSink n) (events : List EngineEvent) : BroadcastSink n :=
  events.foldl onEvent sink

end BroadcastSink

end VibePoker.Server
