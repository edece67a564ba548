import VibePoker.Client.View

/-!
# The client's state machine

`ClientCore` is driven by the intents of the user and by the messages of the server;
it answers each with the effects that the host is to perform. Log lines are left out.

## Main definitions

* `ClientCore.handleIntent`
* `ClientCore.handleInbound`
-/

namespace VibePoker.Client

open VibePoker.Core VibePoker.Game VibePoker.Net

/-- What the host is to do. -/
inductive Effect
  | openConnection (addr : String)
  | closeConnection
  | send (msg : ClientMessage)
  | persistSessionKey (key : Option String)
deriving DecidableEq, Repr

/-- What the user or the host asks of the client. -/
inductive Intent
  | connect (addr : String)
  | connectionOpened
  | register (email username password : String) (deviceLabel : Option String)
  | authenticatePassword (identifier password : String) (deviceLabel : Option String)
  | authenticateSession (key : String) (deviceLabel : Option String)
  | listTables
  | joinTable (tableId buyIn : ℕ)
  | leaveTable (tableId : ℕ)
  | submitAction (action : Action)
  | heartbeat
  | disconnect
  | connectionLost (reason : String)
deriving DecidableEq, Repr

/-- The open prompt, with what an answer must repeat. -/
structure ActivePrompt where
  tableId : ℕ
  handId : ℕ
  seat : ℕ
  legal : LegalActions
deriving DecidableEq, Repr

structure ClientCore where
  view : ClientView
  sessionKey : Option String
  connectionOpen : Bool
  pendingHandshake : Option ClientMessage
  activePrompt : Option ActivePrompt
deriving DecidableEq, Repr

/-- Set the bet of a seat. -/
def updateBet : List (ℕ × ℕ) → ℕ → ℕ → List (ℕ × ℕ)
  | [], seat, amount => [(seat, amount)]
  | (s, bet) :: bets, seat, amount =>
    if s = seat then (s, amount) :: bets else (s, bet) :: updateBet bets seat amount

/-- The highest bet, or zero. -/
def maxBet (bets : List (ℕ × ℕ)) : ℕ := (bets.map Prod.snd).foldl max 0

namespace ClientCore

def new (initialSessionKey : Option String) : ClientCore :=
  ⟨.empty, initialSessionKey, false, none, none⟩

/-! ## Intents -/

def resetToDisconnected (core : ClientCore) : ClientCore :=
  { core with
    view := .empty
    connectionOpen := false
    pendingHandshake := none
    activePrompt := none }

def resetToEnded (core : ClientCore) (reason : String) : ClientCore :=
  { core with
    view := { ClientView.empty with phase := .ended reason }
    connectionOpen := false
    pendingHandshake := none
    activePrompt := none }

/-- Send a handshake message, or keep it until the connection is open. -/
def queueOrSendHandshake (core : ClientCore) (msg : ClientMessage) : ClientCore × List Effect :=
  if core.connectionOpen then
    ({ core with view := { core.view with phase := .authenticating } }, [.send msg])
  else ({ core with pendingHandshake := some msg }, [])

/-- The hand in flight waits for the player. -/
def stillAwaiting (core : ClientCore) : Bool :=
  core.view.currentHand.any (·.awaitingAction)

/-- The hand with its prompt put away. -/
def submitted (hand : CurrentHand) : CurrentHand :=
  { hand with awaitingAction := false, legalActions := none, actionDeadlineMs := none }

def handleSubmitAction (core : ClientCore) (action : Action) : ClientCore × List Effect :=
  if core.stillAwaiting then
    match core.activePrompt with
    | none => (core, [])
    | some prompt =>
      if prompt.legal.isLegal action then
        ({ core with view := core.view.updateHand submitted },
          [.send (.submitAction prompt.tableId prompt.handId action)])
      else (core, [])
  else (core, [])

def handleIntent (core : ClientCore) : Intent → ClientCore × List Effect
  | .connect addr =>
    ({ core with view := { core.view with phase := .connecting } }, [.openConnection addr])
  | .connectionOpened =>
    match core.pendingHandshake with
    | some msg =>
      ({ core with
          connectionOpen := true
          pendingHandshake := none
          view := { core.view with phase := .authenticating } }, [.send msg])
    | none => ({ core with connectionOpen := true }, [])
  | .register email username password deviceLabel =>
    core.queueOrSendHandshake (.register protocolVersion email username password deviceLabel)
  | .authenticatePassword identifier password deviceLabel =>
    core.queueOrSendHandshake
      (.authenticate protocolVersion (.password identifier password) deviceLabel)
  | .authenticateSession key deviceLabel =>
    { core with sessionKey := some key }.queueOrSendHandshake
      (.authenticate protocolVersion (.session key) deviceLabel)
  | .listTables => (core, [.send .listTables])
  | .joinTable tableId buyIn => (core, [.send (.joinTable tableId buyIn)])
  | .leaveTable tableId => (core, [.send (.leaveTable tableId)])
  | .submitAction action => core.handleSubmitAction action
  | .heartbeat => (core, [.send .heartbeat])
  | .disconnect => (core.resetToDisconnected, [.send .disconnect, .closeConnection])
  | .connectionLost reason => (core.resetToEnded reason, [])

/-! ## Messages -/

/-- The hand after a bet of `seat`. -/
def betTaken (hand : CurrentHand) (seat : ℕ) : Action → CurrentHand
  | .fold | .allIn => hand
  | .check | .call =>
    { hand with
      betThisStreet := updateBet hand.betThisStreet seat (maxBet hand.betThisStreet) }
  | .raise amount => { hand with betThisStreet := updateBet hand.betThisStreet seat amount }

/-- The hand after an action. -/
def actionTaken (hand : CurrentHand) (seat : ℕ) (action : Action) (potTotal : ℕ) :
    CurrentHand :=
  betTaken
    { hand with
      potTotal := potTotal
      foldedSeats := if action = .fold ∧ seat ∉ hand.foldedSeats then hand.foldedSeats ++ [seat]
        else hand.foldedSeats } seat action

/-- Follow an event of a table. -/
def projectEngineEvent (core : ClientCore) (tableId : ℕ) (event : EngineEvent) : ClientCore :=
  if core.view.isSeatedAt tableId then
    match event with
    | .handStarted handId dealer _ =>
      { core with
        view := { core.view with
          currentHand := some (.started handId dealer)
          lastActionRejection := none }
        activePrompt := none }
    | .holeCardsDealt seat cards =>
      if core.view.ourSeat = some seat then
        { core with view := core.view.updateHand fun hand =>
          { hand with holeCards := some (cards.1.index, cards.2.index) } }
      else core
    | .boardDealt street cards =>
      { core with view := core.view.updateHand fun hand =>
        { hand with
          street := street
          board := hand.board ++ cards.map fun card => (card.index : ℕ)
          betThisStreet := [] } }
    | .actionTaken seat action potTotal =>
      { core with view := core.view.updateHand (actionTaken · seat action potTotal) }
    | .playerAllIn seat totalCommitted =>
      { core with view := core.view.updateHand fun hand =>
        { hand with
          allInSeats := if seat ∈ hand.allInSeats then hand.allInSeats
            else hand.allInSeats ++ [seat]
          -- the chips of the whole hand are shown as the bet of the street
          betThisStreet := updateBet hand.betThisStreet seat totalCommitted } }
    | .handEnded _ _ =>
      { core with view := { core.view with currentHand := none }, activePrompt := none }
  else core

/-- The hand with a prompt shown. -/
def prompted (legal : LegalActions) (deadlineMs : ℕ) (hand : CurrentHand) : CurrentHand :=
  { hand with
    awaitingAction := true
    legalActions := some legal
    actionDeadlineMs := some deadlineMs }

/-- The hand with its prompt shown again. -/
def rearmed (legal : LegalActions) (hand : CurrentHand) : CurrentHand :=
  { hand with awaitingAction := true, legalActions := some legal }

mutual

/-- One message of the server. -/
def handleInbound : ServerMessage → ClientCore → ClientCore × List Effect
  | .welcome _ playerId username sessionKey stats, core =>
    ({ core with
        view := { core.view with
          phase := .lobby
          playerId := some playerId
          username := some username
          lifetimeStats := some stats }
        sessionKey := some sessionKey }, [.persistSessionKey (some sessionKey)])
  | .rejected _ reason, core =>
    ({ core with view := { core.view with phase := .ended reason } }, [.closeConnection])
  | .goodbye reason, core => (core.resetToEnded reason, [.closeConnection])
  | .heartbeat, core => (core, [])
  | .tableList tables, core => ({ core with view := { core.view with tables := tables } }, [])
  | .joinedTable tableId seat seats, core =>
    ({ core with
        view := { core.view with
          phase := .seated tableId seat
          seats := seats
          button := none
          currentHand := none
          lastActionRejection := none }
        activePrompt := none }, [])
  -- whichever table it was
  | .leftTable _, core =>
    ({ core with
        view := { core.view with
          phase := .lobby
          seats := []
          button := none
          currentHand := none }
        activePrompt := none }, [])
  | .tableState tableId seats button, core =>
    if core.view.isSeatedAt tableId then
      ({ core with view := { core.view with seats := seats, button := some button } }, [])
    else (core, [])
  | .tableEvent tableId event, core => (core.projectEngineEvent tableId event, [])
  -- it is shown with the hand in flight, whatever hand it names
  | .prompt tableId handId seat legal deadlineMs, core =>
    ({ core with
        view := { core.view.updateHand (prompted legal deadlineMs) with
          lastActionRejection := none }
        activePrompt := some ⟨tableId, handId, seat, legal⟩ }, [])
  | .actionRejected reason, core =>
    -- the prompt is kept until another replaces it, and is opened again
    let view := match core.activePrompt with
      | some prompt => core.view.updateHand (rearmed prompt.legal)
      | none => core.view
    ({ core with view := { view with lastActionRejection := some reason } }, [])
  | .replayEvents _ events, core => handleReplay events core

/-- The messages of a replay, in order. -/
def handleReplay : List ServerMessage → ClientCore → ClientCore × List Effect
  | [], core => (core, [])
  | msg :: msgs, core =>
    let (core, effects) := handleInbound msg core
    let (core, later) := handleReplay msgs core
    (core, effects ++ later)

end

/-- The state after messages. -/
def receive (core : ClientCore) (msgs : List ServerMessage) : ClientCore :=
  msgs.foldl (fun core msg => (handleInbound msg core).1) core

end ClientCore

end VibePoker.Client
