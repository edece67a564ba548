import VibePoker.Client.InHand
import VibePoker.Server.Replay

/-!
# Replays over live play

A seat may be sent the messages of the running hand again. The client handles them on top
of what it has made of them already, and of its own submissions, which are not recorded:
the first of them, `HandStarted`, puts the hand away, so that the replay shows what live
play would show had nothing been submitted.

## Main definitions

* `Prompting` — what became of the prompts of a hand
* `Unchanged` — two states that no view and no later answer tells apart

## Main results

* `unchanged_replay_iff` — the replay is idempotent exactly if the last prompt was not
  answered
-/

namespace VibePoker.Client

open VibePoker.Game VibePoker.Net

namespace Input

/-- A message of the running hand, or a submission. -/
def InHand (tableId : ℕ) : Input → Prop
  | .message msg => Client.InHand tableId msg
  | .intent (.submitAction _) => True
  | .intent _ => False

/-- What the server recorded: its messages. -/
def recorded : Input → List ServerMessage
  | .message msg => [msg]
  | .intent _ => []

end Input

/-- The replay buffer after the inputs of a hand. -/
def buffer (inputs : List Input) : List ServerMessage := inputs.flatMap Input.recorded

/-- What became of the prompts of a hand. -/
inductive Prompting
  /-- No hand is in flight. -/
  | idle
  /-- None came yet. -/
  | playing
  /-- The last one stands. -/
  | asked (legal : LegalActions)
  /-- A submission that it allows was made. -/
  | answered
deriving DecidableEq

namespace Prompting

def input (p : Prompting) : Input → Prompting
  | .message (.tableEvent _ (.handStarted _ _ _)) => .playing
  | .message (.tableEvent _ (.handEnded _ _)) => .idle
  | .message (.prompt _ _ _ legal _) => if p = .idle then .idle else .asked legal
  | .message _ => p
  | .intent (.submitAction action) =>
    match p with
    | .asked legal => if legal.isLegal action then .answered else .asked legal
    | p => p
  | .intent _ => p

end Prompting

/-- The prompts after the inputs of a hand. -/
def promptingOf (inputs : List Input) : Prompting := inputs.foldl Prompting.input .idle

/-- Neither the view nor the answer to any later intent tells the states apart. -/
structure Unchanged (core core' : ClientCore) : Prop where
  view : core'.view = core.view
  answer : ∀ later intent,
    ((core'.after later).handleIntent intent).2 = ((core.after later).handleIntent intent).2

/-! ## Prompts that are put away -/

/-- The state after the open prompt was answered. -/
def putAway (core : ClientCore) : ClientCore :=
  { core with view := core.view.updateHand ClientCore.submitted }

/-! ## Live play, with and without the submissions -/

/-- `core` made submissions, `live` received the same messages and made none: then they
differ at most by a prompt that `core` put away. -/
inductive Shows : Prompting → ClientCore → ClientCore → Prop
  | idle {live : ClientCore} (hand : live.view.currentHand = none) : Shows .idle live live
  | playing {live : ClientCore} (hand : live.view.currentHand.isSome = true)
      (awaiting : live.stillAwaiting = false) : Shows .playing live live
  | asked {live : ClientCore} (prompt : ActivePrompt) (kept : live.activePrompt = some prompt)
      (awaiting : live.stillAwaiting = true) : Shows (.asked prompt.legal) live live
  | answered {live : ClientCore} (awaiting : live.stillAwaiting = true) :
    Shows .answered live (putAway live)

section Table

variable {tableId seat : ℕ} {core live : ClientCore}

theorem putAway_updateHand {f : CurrentHand → CurrentHand} (hf : Quiet f) (core : ClientCore) :
    { putAway core with view := (putAway core).view.updateHand f } =
      putAway { core with view := core.view.updateHand f } := by
  simp only [putAway, ClientView.updateHand, Option.map_map]
  congr 3
  funext hand
  exact hf.submitted hand

theorem Shows.phase {p : Prompting} (h : Shows p live core) : core.view.phase = live.view.phase := by
  cases h <;> rfl

theorem Shows.quiet {p : Prompting} (h : Shows p live core) {f : CurrentHand → CurrentHand}
    (hf : Quiet f) : Shows p { live with view := live.view.updateHand f }
      { core with view := core.view.updateHand f } := by
  cases h with
  | idle hand =>
    refine .idle ?_
    rw [ClientView.updateHand_currentHand, hand, Option.map_none]
  | playing hand awaiting =>
    refine .playing ?_ ((stillAwaiting_updateHand hf _).trans awaiting)
    rw [ClientView.updateHand_currentHand, Option.isSome_map, hand]
  | asked prompt kept awaiting =>
    exact .asked prompt kept ((stillAwaiting_updateHand hf _).trans awaiting)
  | answered awaiting =>
    rw [putAway_updateHand hf]
    exact .answered ((stillAwaiting_updateHand hf _).trans awaiting)

theorem shows_bounds {p : Prompting} (h : Shows p live core)
    (hphase : live.view.phase = .seated tableId seat) {ev : EngineEvent} (hev : bounds ev = true) :
    core.projectEngineEvent tableId ev = live.projectEngineEvent tableId ev := by
  cases h with
  | idle | playing | asked => rfl
  | answered =>
    -- what was put away goes with the hand
    have hseated : (putAway live).view.isSeatedAt tableId = true := isSeatedAt_of_phase hphase
    simp only [ClientCore.projectEngineEvent, isSeatedAt_of_phase hphase, hseated, if_true]
    cases ev with
    | handStarted | handEnded => rfl
    | holeCardsDealt | boardDealt | actionTaken | playerAllIn => cases hev

/-- A prompt shows the same where another was put away. -/
theorem handleInbound_prompt_putAway (core : ClientCore) (promptTable handId seat : ℕ)
    (legal : LegalActions) (deadlineMs : ℕ) :
    (ClientCore.handleInbound (.prompt promptTable handId seat legal deadlineMs)
      (putAway core)).1 =
      (ClientCore.handleInbound (.prompt promptTable handId seat legal deadlineMs) core).1 := by
  rw [handleInbound_prompt, handleInbound_prompt]
  simp only [putAway, ClientView.updateHand, Option.map_map]
  rfl

/-- A prompt is shown in the hand in flight. -/
theorem shows_prompt (hand : core.view.currentHand.isSome = true) (promptTable handId seat : ℕ)
    (legal : LegalActions) (deadlineMs : ℕ) :
    Shows (.asked legal)
      (ClientCore.handleInbound (.prompt promptTable handId seat legal deadlineMs) core).1
      (ClientCore.handleInbound (.prompt promptTable handId seat legal deadlineMs) core).1 := by
  rw [handleInbound_prompt]
  refine .asked ⟨promptTable, handId, seat, legal⟩ rfl ?_
  obtain ⟨hand, hsome⟩ := Option.isSome_iff_exists.mp hand
  simp [ClientCore.stillAwaiting, hsome, ClientCore.prompted]

theorem handleSubmitAction_of_asked (h : core.stillAwaiting = true) {prompt : ActivePrompt}
    (hprompt : core.activePrompt = some prompt) (action : Action) :
    (core.handleSubmitAction action).1 =
      if prompt.legal.isLegal action then putAway core else core := by
  unfold ClientCore.handleSubmitAction
  rw [if_pos h]
  split
  · rename_i hnone
    cases hnone.symm.trans hprompt
  · rename_i prompt' hprompt'
    cases hprompt'.symm.trans hprompt
    split <;> rfl

theorem stillAwaiting_putAway (core : ClientCore) : (putAway core).stillAwaiting = false := by
  simp only [ClientCore.stillAwaiting, putAway, ClientView.updateHand]
  cases core.view.currentHand <;> rfl

/-- One message, or one submission. -/
theorem Shows.handle {p : Prompting} (h : Shows p live core)
    (hphase : live.view.phase = .seated tableId seat) {input : Input}
    (hin : input.InHand tableId) :
    Shows (p.input input) (live.receive input.recorded) (core.handle input).1 := by
  cases input with
  | message msg =>
    change Shows _ (ClientCore.handleInbound msg live).1 (ClientCore.handleInbound msg core).1
    cases hin with
    | event ev =>
      rw [handleInbound_event, handleInbound_event]
      cases hev : bounds ev with
      | true =>
        rw [shows_bounds h hphase hev]
        unfold ClientCore.projectEngineEvent
        rw [if_pos (isSeatedAt_of_phase hphase)]
        cases ev with
        | handStarted => exact .playing rfl rfl
        | handEnded => exact .idle rfl
        | holeCardsDealt | boardDealt | actionTaken | playerAllIn => cases hev
      | false =>
        obtain ⟨f, hf, happly⟩ := projectEngineEvent_quiet tableId seat hev
        rw [happly live hphase, happly core (h.phase.trans hphase)]
        have hp : p.input (.message (.tableEvent tableId ev)) = p := by
          cases ev with
          | handStarted | handEnded => cases hev
          | holeCardsDealt | boardDealt | actionTaken | playerAllIn => rfl
        rw [hp]
        exact h.quiet hf
    | prompt promptTable handId promptSeat legal deadlineMs =>
      cases h with
      | idle hand =>
        rw [handleInbound_prompt]
        refine .idle ?_
        simp [hand]
      | playing hand => exact shows_prompt hand _ _ _ _ _
      | asked _ _ awaiting => exact shows_prompt (isSome_of_stillAwaiting awaiting) _ _ _ _ _
      | answered awaiting =>
        rw [handleInbound_prompt_putAway]
        exact shows_prompt (isSome_of_stillAwaiting awaiting) _ _ _ _ _
  | intent intent =>
    cases intent with
    | submitAction action =>
      change Shows _ live (core.handleSubmitAction action).1
      cases h with
      | idle hand =>
        rw [handleSubmitAction_of_not_awaiting (by simp [ClientCore.stillAwaiting, hand])]
        exact .idle hand
      | playing hand awaiting =>
        rw [handleSubmitAction_of_not_awaiting awaiting]
        exact .playing hand awaiting
      | asked prompt kept awaiting =>
        rw [handleSubmitAction_of_asked awaiting kept, Prompting.input]
        split
        · exact .answered awaiting
        · exact .asked prompt kept awaiting
      | answered awaiting =>
        -- a second submission is ignored
        rw [handleSubmitAction_of_not_awaiting (stillAwaiting_putAway live)]
        exact .answered awaiting
    | _ => exact hin.elim

/-! ## Replays -/

/-- What a hand does not touch. -/
def background (core : ClientCore) : ClientCore :=
  { core with
    view := { core.view with
      currentHand := none
      lastActionRejection := none }
    activePrompt := none }

theorem background_phase (core : ClientCore) : (background core).view.phase = core.view.phase := rfl

theorem background_handle (hphase : core.view.phase = .seated tableId seat) {input : Input}
    (hin : input.InHand tableId) : background (core.handle input).1 = background core := by
  cases input with
  | message msg =>
    change background (ClientCore.handleInbound msg core).1 = _
    cases hin with
    | event ev =>
      rw [handleInbound_event]
      cases hev : bounds ev with
      | false =>
        -- an event inside the hand changes the hand shown, which is no part of the background
        obtain ⟨f, -, happly⟩ := projectEngineEvent_quiet tableId seat hev
        rw [happly core hphase]
        rfl
      | true =>
        unfold ClientCore.projectEngineEvent
        rw [if_pos (isSeatedAt_of_phase hphase)]
        cases ev with
        | handStarted | handEnded => rfl
        | holeCardsDealt | boardDealt | actionTaken | playerAllIn => cases hev
    | prompt =>
      rw [handleInbound_prompt]
      rfl
  | intent intent =>
    cases intent with
    | submitAction action =>
      change background (core.handleSubmitAction action).1 = _
      unfold ClientCore.handleSubmitAction
      split
      · split
        · rfl
        · split <;> rfl
      · rfl
    | _ => exact hin.elim

theorem background_after (hphase : core.view.phase = .seated tableId seat) {inputs : List Input}
    (hin : ∀ input ∈ inputs, input.InHand tableId) :
    background (core.after inputs) = background core := by
  induction inputs generalizing core with
  | nil => rfl
  | cons input inputs ih =>
    rw [List.forall_mem_cons] at hin
    have hstep := background_handle hphase hin.1
    have hphase' : (core.handle input).1.view.phase = .seated tableId seat := by
      rw [← background_phase, hstep, background_phase, hphase]
    exact (ih hphase' hin.2).trans hstep

/-- The start of a hand forgets the one before. -/
theorem handStarted_eq (hphase : core.view.phase = .seated tableId seat)
    (handId dealer deckSeed : ℕ) :
    core.projectEngineEvent tableId (.handStarted handId dealer deckSeed) =
      { background core with
        view := { (background core).view with
          currentHand := some (.started handId dealer) } } := by
  unfold ClientCore.projectEngineEvent
  rw [if_pos (isSeatedAt_of_phase hphase)]
  rfl

theorem shows_after {p : Prompting} (h : Shows p live core)
    (hphase : live.view.phase = .seated tableId seat) {inputs : List Input}
    (hin : ∀ input ∈ inputs, input.InHand tableId) :
    Shows (inputs.foldl Prompting.input p) (live.receive (buffer inputs)) (core.after inputs) := by
  induction inputs generalizing p live core with
  | nil => exact h
  | cons input inputs ih =>
    rw [List.forall_mem_cons] at hin
    have hstep := h.handle hphase hin.1
    have hcore := background_handle (h.phase.trans hphase) hin.1
    have hphase' : (live.receive input.recorded).view.phase = .seated tableId seat := by
      rw [← hstep.phase, ← background_phase, hcore, background_phase, h.phase, hphase]
    have hlater := ih hstep hphase' hin.2
    rw [buffer, List.flatMap_cons, ClientCore.receive, List.foldl_append]
    exact hlater

end Table

/-! ## The main result -/

/-- After the messages of a hand and submissions, in any order, the replay of the messages
changes nothing exactly if the last prompt was not answered. -/
theorem unchanged_replay_iff {core : ClientCore} {tableId seat : ℕ}
    (hphase : core.view.phase = .seated tableId seat) (handId dealer deckSeed replayId : ℕ)
    {rest : List Input} (hrest : ∀ input ∈ rest, input.InHand tableId) {inputs : List Input}
    (hinputs : inputs =
      .message (.tableEvent tableId (.handStarted handId dealer deckSeed)) :: rest) :
    Unchanged (core.after inputs)
      ((core.after inputs).handle (.message (.replayEvents replayId (buffer inputs)))).1 ↔
      promptingOf inputs ≠ .answered := by
  have hin : ∀ input ∈ inputs, input.InHand tableId := by
    rw [hinputs, List.forall_mem_cons]
    exact ⟨.event _, hrest⟩
  have hbackground := background_after hphase hin
  have hphase' : (core.after inputs).view.phase = .seated tableId seat := by
    rw [← background_phase, hbackground, background_phase, hphase]
  have hbuffer : buffer inputs =
      .tableEvent tableId (.handStarted handId dealer deckSeed) :: buffer rest := by
    rw [hinputs]
    rfl
  -- the replay begins where the hand began
  have hreplay : ((core.after inputs).handle
      (.message (.replayEvents replayId (buffer inputs)))).1 = core.receive (buffer inputs) := by
    simp only [ClientCore.handle, ClientCore.handleInbound, ClientCore.handleReplay_fst]
    rw [hbuffer]
    simp only [ClientCore.receive, List.foldl_cons, handleInbound_event]
    rw [handStarted_eq hphase, handStarted_eq hphase', hbackground]
  have hshows : Shows (promptingOf inputs) (core.receive (buffer inputs)) (core.after inputs) := by
    rw [hinputs] at hin ⊢
    rw [List.forall_mem_cons] at hin
    have hstart : Shows .playing
        (core.projectEngineEvent tableId (.handStarted handId dealer deckSeed))
        (core.projectEngineEvent tableId (.handStarted handId dealer deckSeed)) := by
      rw [handStarted_eq hphase]
      exact .playing rfl rfl
    have hlater := shows_after hstart (by rw [handStarted_eq hphase]; exact hphase) hrest
    rw [ClientCore.after_cons, ClientCore.handle, handleInbound_event, buffer,
      List.flatMap_cons, ClientCore.receive, List.foldl_append]
    simp only [Input.recorded, List.foldl_cons, List.foldl_nil, handleInbound_event]
    exact hlater
  rw [hreplay]
  -- the states are the same, or the prompt that was put away is shown again
  cases hp : promptingOf inputs <;> rw [hp] at hshows
  case answered =>
    refine ⟨fun h => ?_, fun h => absurd rfl h⟩
    generalize core.after inputs = core', core.receive (buffer inputs) = live at hshows h
    cases hshows with
    | answered awaiting =>
      have hview := congrArg (fun view => view.currentHand.any (·.awaitingAction)) h.view
      exact absurd (awaiting.symm.trans (hview.trans (stillAwaiting_putAway live))) (by decide)
  all_goals
    refine ⟨fun _ => by simp, fun _ => ?_⟩
    generalize core.after inputs = core', core.receive (buffer inputs) = live at hshows
    cases hshows
    exact ⟨rfl, fun _ _ => rfl⟩

/-- The first prompt was answered and the second one stands. -/
theorem unchanged_replay_second_prompt :
    let core : ClientCore :=
      { ClientCore.new none with view := { ClientView.empty with phase := .seated 1 0 } }
    let rest : List Input :=
      [.message (.prompt 1 7 0 ⟨true, false, 0, true, 4, 200, 198⟩ 30000),
        .intent (.submitAction .check),
        .message (.tableEvent 1 (.actionTaken 0 .check 4)),
        .message (.prompt 1 7 0 ⟨false, true, 6, true, 12, 198, 198⟩ 30000)]
    let inputs := .message (.tableEvent 1 (.handStarted 7 0 0)) :: rest
    Unchanged (core.after inputs)
      ((core.after inputs).handle (.message (.replayEvents 7 (buffer inputs)))).1 := by
  intro core rest inputs
  refine (@unchanged_replay_iff core 1 0 rfl 7 0 0 7 rest ?_ inputs rfl).mpr
    (by decide)
  rw [List.forall_mem_cons, List.forall_mem_cons, List.forall_mem_cons, List.forall_mem_singleton]
  exact ⟨.prompt _ _ _ _ _, trivial, .event _, .prompt _ _ _ _ _⟩

/-- A player who submits and asks for a replay before the server has answered is shown the
prompt again, and may answer it twice. -/
theorem not_unchanged_replay :
    ¬ ∀ (core : ClientCore) (tableId seat : ℕ), core.view.phase = .seated tableId seat →
      ∀ (handId dealer deckSeed : ℕ) (rest : List Input),
        (∀ input ∈ rest, input.InHand tableId) →
        let inputs := .message (.tableEvent tableId (.handStarted handId dealer deckSeed)) :: rest
        Unchanged (core.after inputs)
          ((core.after inputs).handle (.message (.replayEvents handId (buffer inputs)))).1 := by
  intro h
  have hreplay := h { ClientCore.new none with view := { ClientView.empty with phase := .seated 1 0 } }
    1 0 rfl 7 0 0
    [.message (.prompt 1 7 0 ⟨true, false, 0, true, 4, 200, 198⟩ 30000),
      .intent (.submitAction .check)]
    (by
      rw [List.forall_mem_cons, List.forall_mem_singleton]
      exact ⟨.prompt _ _ _ _ _, trivial⟩)
  exact absurd hreplay.view (by decide)

/-! ## Buffers of the server -/

/-- A replay buffer is empty, or holds the messages of a hand from its start. -/
def Buffered (tableId : ℕ) (replay : Server.ReplayBuffer) : Prop :=
  (replay.handId = none ∧ replay.events = []) ∨
    ∃ handId dealer deckSeed rest, replay.handId = some handId ∧
      replay.events = .tableEvent tableId (.handStarted handId dealer deckSeed) :: rest ∧
      ∀ msg ∈ rest, InHand tableId msg

section Buffers

open VibePoker.Server

variable {tableId : ℕ} {link : SeatLink}

theorem Buffered.replayPush (h : Buffered tableId link.replay) {msg : ServerMessage}
    (hmsg : InHand tableId msg) : Buffered tableId (link.replayPush msg).replay := by
  unfold SeatLink.replayPush
  rcases h with ⟨hnone, hempty⟩ | ⟨handId, dealer, deckSeed, rest, hsome, hevents, hrest⟩
  · rw [if_neg (by simp [hnone])]
    exact Or.inl ⟨hnone, hempty⟩
  · rw [if_pos (by simp [hsome])]
    refine Or.inr ⟨handId, dealer, deckSeed, rest ++ [msg], hsome, by simp [hevents], ?_⟩
    intro other hother
    rcases List.mem_append.mp hother with hother | hother
    · exact hrest other hother
    · rw [List.mem_singleton] at hother
      exact hother ▸ hmsg

theorem Buffered.fan (h : Buffered tableId link.replay) {msg : ServerMessage}
    (hmsg : InHand tableId msg) : Buffered tableId (link.fan msg).replay := by
  rw [SeatLink.fan_replay]
  exact h.replayPush hmsg

/-- The handling of an event by the sink keeps the buffers of its seats. -/
theorem Buffered.onEvent {n : ℕ} {sink : BroadcastSink n} {i : Fin n}
    (h : Buffered sink.tableId (sink.links i).replay) (event : EngineEvent) :
    Buffered sink.tableId ((sink.onEvent event).links i).replay := by
  rw [onEvent_links]
  cases event with
  | handStarted handId dealer deckSeed =>
    exact Or.inr ⟨handId, dealer, deckSeed, [], rfl, rfl, nofun⟩
  | handEnded => exact Or.inl ⟨rfl, rfl⟩
  | holeCardsDealt seat cards =>
    rw [BroadcastSink.delivery?]
    split
    · exact h.fan (.event _)
    · exact h
  | boardDealt | actionTaken | playerAllIn => exact h.fan (.event _)

/-- What a hand and the sessions do at the links of a table keeps the buffers. -/
theorem Buffered.apply {n : ℕ} {sink : BroadcastSink n} {i : Fin n}
    (h : Buffered sink.tableId (sink.links i).replay) (handId deadlineMs : ℕ) (op : HandOp n) :
    Buffered (op.apply handId deadlineMs sink).tableId
      ((op.apply handId deadlineMs sink).links i).replay := by
  cases op with
  | session j c =>
    rw [HandOp.apply]
    by_cases hij : i = j
    · subst hij
      simpa [SeatLink.replace] using h
    · simpa [Function.update_of_ne hij] using h
  | output o =>
    cases o with
    | event ev =>
      have htable : (sink.onEvent ev).tableId = sink.tableId := by cases ev <;> rfl
      rw [HandOp.apply, htable]
      exact h.onEvent ev
    | notify => exact h
    | prompt d obs =>
      rw [HandOp.apply]
      by_cases hij : i = d.seat
      · subst hij
        simp only [Function.update_self, SeatLink.ask]
        split
        · exact h
        · refine Buffered.fan ?_ (.prompt _ _ _ _ _)
          exact h
      · simpa [Function.update_of_ne hij] using h

end Buffers

end VibePoker.Client
