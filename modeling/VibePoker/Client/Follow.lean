import VibePoker.Client.InHand

/-!
# The hand that the client shows

Seated at a table, the client changes the hand that it shows when the table reports an event.
The other messages of a hand, and what the player asks meanwhile, touch the prompt of the hand
at most. A replay is followed like the events that it repeats.

## Main definitions

* `follow` — the hand after an event, as the player of a seat sees it
* `WhileSeated` — inputs that leave the client at its table
* `heard` — the events of a table in an input

## Main results

* `after_follows` — the hand after any such inputs, apart from its prompt
-/

namespace VibePoker.Client

open VibePoker.Game VibePoker.Net

/-- The hand in flight after an event of the table, as the player of `seat` sees it. -/
def follow (seat : ℕ) (hand : Option CurrentHand) : EngineEvent → Option CurrentHand
  | .handStarted handId dealer _ => some (.started handId dealer)
  | .holeCardsDealt dealt cards =>
    if dealt = seat then
      hand.map fun hand => { hand with holeCards := some (cards.1.index, cards.2.index) }
    else hand
  | .boardDealt street cards => hand.map fun hand =>
    { hand with
      street := street
      board := hand.board ++ cards.map fun card => (card.index : ℕ)
      betThisStreet := [] }
  | .actionTaken actor action potTotal =>
    hand.map (ClientCore.actionTaken · actor action potTotal)
  | .playerAllIn actor totalCommitted => hand.map fun hand =>
    { hand with
      allInSeats := if actor ∈ hand.allInSeats then hand.allInSeats
        else hand.allInSeats ++ [actor]
      betThisStreet := updateBet hand.betThisStreet actor totalCommitted }
  | .handEnded _ _ => none

/-- The events of a table that a message tells of. -/
def toldBy (tableId : ℕ) : ServerMessage → List EngineEvent
  | .tableEvent table ev => if table = tableId then [ev] else []
  | _ => []

/-- The events of a table in an input, those of a replay included. -/
def heard (tableId : ℕ) : Input → List EngineEvent
  | .message (.replayEvents _ msgs) => msgs.flatMap (toldBy tableId)
  | .message msg => toldBy tableId msg
  | .intent _ => []

/-- What a client that stays at its table may be given: what is sent to a seat while hands are
played, and what its player may ask meanwhile. -/
inductive WhileSeated : Input → Prop
  | event (tableId : ℕ) (ev : EngineEvent) : WhileSeated (.message (.tableEvent tableId ev))
  | prompt (tableId handId seat : ℕ) (legal : LegalActions) (deadlineMs : ℕ) :
    WhileSeated (.message (.prompt tableId handId seat legal deadlineMs))
  /-- A replay repeats messages of a hand. -/
  | replay (handId : ℕ) {msgs : List ServerMessage}
      (h : ∀ msg ∈ msgs, ∃ tableId, InHand tableId msg) :
    WhileSeated (.message (.replayEvents handId msgs))
  | rejected (reason : String) : WhileSeated (.message (.actionRejected reason))
  | tableState (tableId : ℕ) (seats : List SeatInfo) (button : ℕ) :
    WhileSeated (.message (.tableState tableId seats button))
  | tableList (tables : List TableInfo) : WhileSeated (.message (.tableList tables))
  | heartbeat : WhileSeated (.message .heartbeat)
  | submitAction (action : Action) : WhileSeated (.intent (.submitAction action))
  | listTables : WhileSeated (.intent .listTables)
  | joinTable (tableId buyIn : ℕ) : WhileSeated (.intent (.joinTable tableId buyIn))
  | leaveTable (tableId : ℕ) : WhileSeated (.intent (.leaveTable tableId))
  | keepAlive : WhileSeated (.intent .heartbeat)

section Table

variable {tableId seat : ℕ} {core : ClientCore}

/-- The core is at the table and shows this hand, apart from its prompt. -/
structure ShowsHand (tableId seat : ℕ) (core : ClientCore) (hand : Option CurrentHand) :
    Prop where
  phase : core.view.phase = .seated tableId seat
  hand : core.view.currentHand.map ClientCore.submitted = hand

/-- The prompt of a hand is no part of its course. -/
theorem follow_submitted (hand : Option CurrentHand) (ev : EngineEvent) :
    (follow seat hand ev).map ClientCore.submitted =
      follow seat (hand.map ClientCore.submitted) ev := by
  cases ev with
  | handStarted | handEnded => rfl
  | holeCardsDealt dealt cards =>
    simp only [follow]
    split
    · rw [Option.map_map, Option.map_map]
      rfl
    · rfl
  | boardDealt | playerAllIn =>
    simp only [follow, Option.map_map]
    rfl
  | actionTaken actor action potTotal =>
    simp only [follow, Option.map_map]
    congr 1
    funext hand
    exact ((quiet_actionTaken actor action potTotal).submitted hand).symm

theorem projectEngineEvent_follow (hphase : core.view.phase = .seated tableId seat)
    (ev : EngineEvent) :
    (core.projectEngineEvent tableId ev).view.phase = .seated tableId seat ∧
      (core.projectEngineEvent tableId ev).view.currentHand =
        follow seat core.view.currentHand ev := by
  unfold ClientCore.projectEngineEvent
  rw [if_pos (isSeatedAt_of_phase hphase)]
  cases ev with
  | holeCardsDealt dealt cards =>
    have hour : core.view.ourSeat = some seat := by rw [ClientView.ourSeat, hphase]
    by_cases hseat : dealt = seat
    · simp [follow, hour, hseat, hphase]
    · simp [follow, hour, hseat, Ne.symm hseat, hphase]
  | _ => exact ⟨hphase, rfl⟩

namespace ShowsHand

variable {core' : ClientCore} {hand : Option CurrentHand}

theorem refl (hphase : core.view.phase = .seated tableId seat) :
    ShowsHand tableId seat core (core.view.currentHand.map ClientCore.submitted) :=
  ⟨hphase, rfl⟩

/-- A change of the prompt at most. -/
theorem of_prompt (h : ShowsHand tableId seat core hand)
    (hphase : core'.view.phase = core.view.phase) {f : CurrentHand → CurrentHand}
    (hhand : core'.view.currentHand = core.view.currentHand.map f)
    (hf : ∀ hand, ClientCore.submitted (f hand) = ClientCore.submitted hand) :
    ShowsHand tableId seat core' hand where
  phase := hphase.trans h.phase
  hand := by
    rw [hhand, Option.map_map, ← h.hand]
    congr 1
    funext hand
    exact hf hand

theorem still (h : ShowsHand tableId seat core hand)
    (hphase : core'.view.phase = core.view.phase)
    (hhand : core'.view.currentHand = core.view.currentHand) :
    ShowsHand tableId seat core' hand :=
  h.of_prompt hphase (hhand.trans Option.map_id'.symm) fun _ => rfl

theorem event (h : ShowsHand tableId seat core hand) (table : ℕ) (ev : EngineEvent) :
    ShowsHand tableId seat (core.projectEngineEvent table ev)
      ((toldBy tableId (.tableEvent table ev)).foldl (follow seat) hand) := by
  rw [toldBy]
  by_cases htable : table = tableId
  · subst htable
    obtain ⟨hphase, hhand⟩ := projectEngineEvent_follow h.phase ev
    rw [if_pos rfl]
    refine ⟨hphase, ?_⟩
    rw [hhand, follow_submitted, h.hand]
    rfl
  · -- the event of another table
    have haway : core.view.isSeatedAt table = false := by
      rw [ClientView.isSeatedAt, h.phase]
      exact decide_eq_false fun heq => htable heq.symm
    unfold ClientCore.projectEngineEvent
    rw [if_neg htable, haway]
    exact h

theorem prompt (h : ShowsHand tableId seat core hand) (promptTable handId promptSeat : ℕ)
    (legal : LegalActions) (deadlineMs : ℕ) :
    ShowsHand tableId seat (ClientCore.handleInbound
      (.prompt promptTable handId promptSeat legal deadlineMs) core).1 hand := by
  rw [handleInbound_prompt]
  exact h.of_prompt rfl rfl fun _ => rfl

/-- The messages of a replay. -/
theorem receive (h : ShowsHand tableId seat core hand) {msgs : List ServerMessage}
    (hmsgs : ∀ msg ∈ msgs, ∃ table, InHand table msg) :
    ShowsHand tableId seat (core.receive msgs)
      ((msgs.flatMap (toldBy tableId)).foldl (follow seat) hand) := by
  induction msgs generalizing core hand with
  | nil => exact h
  | cons msg msgs ih =>
    rw [List.forall_mem_cons] at hmsgs
    rw [List.flatMap_cons, List.foldl_append, ClientCore.receive, List.foldl_cons]
    refine ih ?_ hmsgs.2
    obtain ⟨table, hmsg⟩ := hmsgs.1
    cases hmsg with
    | event ev =>
      rw [handleInbound_event]
      exact h.event table ev
    | prompt promptTable handId promptSeat legal deadlineMs =>
      exact h.prompt promptTable handId promptSeat legal deadlineMs

/-- An answer puts the prompt away. -/
theorem submitAction (h : ShowsHand tableId seat core hand) (action : Action) :
    ShowsHand tableId seat (core.handleSubmitAction action).1 hand := by
  unfold ClientCore.handleSubmitAction
  split
  · split
    · exact h
    · split
      · exact h.of_prompt rfl rfl fun _ => rfl
      · exact h
  · exact h

/-- One input. -/
theorem handle (h : ShowsHand tableId seat core hand) {input : Input} (hinput : WhileSeated input) :
    ShowsHand tableId seat (core.handle input).1
      ((heard tableId input).foldl (follow seat) hand) := by
  cases hinput with
  | event table ev =>
    rw [ClientCore.handle, handleInbound_event]
    exact h.event table ev
  | prompt promptTable handId promptSeat legal deadlineMs =>
    exact h.prompt promptTable handId promptSeat legal deadlineMs
  | replay handId hmsgs =>
    rw [ClientCore.handle, ClientCore.handleInbound, ClientCore.handleReplay_fst]
    exact h.receive hmsgs
  | rejected reason =>
    simp only [ClientCore.handle, ClientCore.handleInbound]
    cases core.activePrompt with
    | none => exact h.still rfl rfl
    | some prompt => exact h.of_prompt rfl rfl fun _ => rfl
  | tableState table seats button =>
    simp only [ClientCore.handle, ClientCore.handleInbound]
    split <;> exact h.still rfl rfl
  | tableList | heartbeat =>
    simp only [ClientCore.handle, ClientCore.handleInbound]
    exact h.still rfl rfl
  | submitAction action => exact h.submitAction action
  | listTables | joinTable | leaveTable | keepAlive => exact h.still rfl rfl

end ShowsHand

/-- A client that stays at its table shows the hand that the events of the table tell of. -/
theorem after_follows {hand : Option CurrentHand} (h : ShowsHand tableId seat core hand)
    {inputs : List Input} (hinputs : ∀ input ∈ inputs, WhileSeated input) :
    ShowsHand tableId seat (core.after inputs)
      ((inputs.flatMap (heard tableId)).foldl (follow seat) hand) := by
  induction inputs generalizing core hand with
  | nil => exact h
  | cons input inputs ih =>
    rw [List.forall_mem_cons] at hinputs
    rw [ClientCore.after_cons, List.flatMap_cons, List.foldl_append]
    exact ih (h.handle hinputs.1) hinputs.2

end Table

end VibePoker.Client
