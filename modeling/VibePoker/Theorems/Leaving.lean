import VibePoker.Server.Numbering

/-!
# Leaving in the middle of a hand

A player that leaves during a hand is to fold in it from then on. `cancel_pending`
marks the connection as departed and drops its prompt; an `act` call that checked the
mark before and stores its prompt afterwards escapes both. Without such a call, every
call that has no answer yet folds as soon as `LeftTable` is queued.

## Main definitions

* `DropsUnchecked` — no call is between its check and its store when a leave drops the
  prompt
* `OnlyFolds` — what holds from `LeftTable` on

## Main results

* `leaver_only_folds` — the runs without such a call
* `leaver_prompted` — a run with such a call
-/

namespace VibePoker.Server

open VibePoker.Core VibePoker.Game VibePoker.Net VibePoker.CS

namespace LiveSeat

variable {ι : Type*} [DecidableEq ι] {ctx : SeatContext} {c : ι} {s s₁ t : LiveSeat ι}

/-- A section of the agent, or of the session of `c`. -/
def IsOf (c : ι) : SeatOp ι → Prop
  | .agent _ => True
  | .session d _ => d = c

/-- When a `LeaveTable` drops the prompt, no `act` call is between its check and its
store. -/
def DropsUnchecked (s : LiveSeat ι) (op : SeatOp ι) : Prop :=
  ∀ d, op = .session d .leaveDrop → ∀ e ask, s.agent ≠ .checked e ask

/-- A section of the agent or of the session of `c`, at which no leave races with a
call. -/
def LeaverStep (ctx : SeatContext) (c : ι) (s : LiveSeat ι) (op : SeatOp ι) (t : LiveSeat ι) :
    Prop :=
  IsOf c op ∧ DropsUnchecked s op ∧ s.step ctx op = some t

/-- A call that was not over at `s₁` has folded at once, or it had its answer or its
deadline before. -/
inductive Settled (s₁ : LiveSeat ι) (call : ℕ) : Verdict → Prop
  | departed : Settled s₁ call .departed
  | dropped : Settled s₁ call .dropped
  | elapsed (h : s₁.channel call = .closed) : Settled s₁ call .elapsed
  | answered {action : Action} (h : s₁.channel call = .answered action) :
      Settled s₁ call (.answered action)

/-- One section of the agent that is not the deadline. -/
def Unhurried (ctx : SeatContext) (s : LiveSeat ι) (op : AgentOp) (t : LiveSeat ι) : Prop :=
  op ≠ .expire ∧ s.agentStep ctx op = some t

/-- The call that is running comes to its end by itself. -/
def Ends (ctx : SeatContext) (s : LiveSeat ι) : Prop :=
  ∃ ops t, Trace (Unhurried ctx) s ops t ∧ t.agent = .idle

/-- From `s₁` to `s`, calls only fold: none is about to store a prompt, no prompt is
there to be answered, and none waits for its deadline. -/
structure OnlyFolds (ctx : SeatContext) (c : ι) (s₁ s : LiveSeat ι) : Prop where
  no_store : ∀ d ask, s.agent ≠ .checked d ask
  no_slot : s.pending c = none
  no_wait : ∀ ask, s.agent = .waiting ask → s.channel ask.call ≠ .live
  verdicts : ∃ later, s.returned = s₁.returned ++ later ∧ ∀ r ∈ later, Settled s₁ r.1 r.2
  ends : Ends ctx s

/-! ## Once the prompt is dropped -/

/-- No call is about to store a prompt or waits for its deadline. -/
@[simp, grind =]
def CallGone (channel : ℕ → Channel) : AgentPhase ι → Prop
  | .checked _ _ => False
  | .stored _ ask | .waiting ask => channel ask.call ≠ .live
  | .idle | .resolved _ _ | .failed _ _ | .clearing _ _ _ => True

/-- The connection has departed, its slot is empty, and no call can fill it. -/
structure Gone (c : ι) (s : LiveSeat ι) : Prop where
  departed : s.departed c = true
  no_slot : s.pending c = none
  call : CallGone s.channel s.agent

/-- The running call works with `c`, whose slot is `slot`, and came to its verdict
by the channel. -/
@[simp, grind =]
def CallAt (c : ι) (slot : Option Ask) (channel : ℕ → Channel) : AgentPhase ι → Prop
  | .resolved d _ | .checked d _ => d = c
  | .stored d ask => d = c ∧ (channel ask.call = .live → slot = some ask)
  | .waiting ask => channel ask.call = .live → slot = some ask
  | .failed ask v => v = .dropped ∨ (v = .elapsed ∧ channel ask.call = .closed)
  | .clearing d ask v => d = c ∧ (v = .dropped ∨ (v = .elapsed ∧ channel ask.call = .closed))
  | .idle => True

/-- The session of `c` is in its reader loop, or leaving or closing. -/
@[simp, grind =]
def SessionAt (departed : Bool) (gone : Prop) : SessionPhase ι → Prop
  | .reading | .strayDeparted | .strayDropped | .closeDropped | .closeKept | .closeRecorded
  | .closed => True
  | .leaveDeparted | .closeDeparted => departed = true
  | .leaveDropped | .leaveMarked | .leaveRecorded => gone
  | .offline | .entered | .joined | .found _ | .lifted _ | .replaced _ | .restored _ => False

/-- The agent and the session of `c` work together. -/
structure Attending (c : ι) (s : LiveSeat ι) : Prop where
  numbered : s.Numbered
  current_eq : s.current = c
  call : CallAt c (s.pending c) s.channel s.agent
  session : SessionAt (s.departed c) (Gone c s) (s.session c)

theorem attending_start (c : ι) : Attending c (start c) where
  numbered := numbered_start c
  current_eq := rfl
  call := trivial
  session := by simp [start]

theorem Gone.agentStep (h : Gone c s) (hat : CallAt c (s.pending c) s.channel s.agent)
    {op : AgentOp} (hstep : AgentStep ctx s op t) : Gone c t ∧ t.channel = s.channel := by
  obtain ⟨hdeparted, hslot, hcall⟩ := h
  cases hstep with
  | _ =>
    rw [‹s.agent = _›] at hcall hat
    refine ⟨⟨?_, ?_, ?_⟩, ?_⟩ <;> simp only [putSlot, giveBack, trySend] <;>
      grind [dropSender]

/-- A session whose slot is empty leaves the channels alone. -/
theorem Gone.sessionStep (h : Gone c s) {gone : Prop} {op : SessionOp ι}
    (hat : SessionAt (s.departed c) gone (s.session c)) (hstep : SessionStep ctx s c op t) :
    Gone c t ∧ t.channel = s.channel := by
  obtain ⟨hdeparted, hslot, hcall⟩ := h
  have hkeeps : t.departed c = true ∧ t.pending c = none ∧ t.channel = s.channel := by
    cases hstep with
    | deliver tableId handId action hreading ht =>
      cases ht <;> simp only [takeSlot, trySend] <;> grind
    | _ =>
      rw [‹s.session c = _›] at hat
      simp only [putSlot, takeSlot, enter, trySend]
      grind [dropSender]
  refine ⟨⟨hkeeps.1, hkeeps.2.1, ?_⟩, hkeeps.2.2⟩
  rw [hkeeps.2.2, hstep.agent_eq]
  exact hcall

theorem Attending.agentStep (h : Attending c s) {op : AgentOp} (hstep : AgentStep ctx s op t) :
    Attending c t := by
  have hgone : Gone c s → Gone c t := fun hg => (hg.agentStep h.call hstep).1
  have hnumbered := h.numbered.agentStep hstep
  obtain ⟨⟨-, -, hnum⟩, hcurrent, hcall, hsession⟩ := h
  have hframe : t.current = s.current ∧ t.departed = s.departed ∧ t.session = s.session := by
    cases hstep <;> exact ⟨rfl, rfl, rfl⟩
  refine ⟨hnumbered, hframe.1.trans hcurrent, ?_, ?_⟩
  · cases hstep with
    | _ =>
      rw [‹s.agent = _›] at hcall hnum
      simp only [putSlot, giveBack, trySend]
      grind [dropSender_eq, Held]
  · rw [hframe.2.1, hframe.2.2]
    revert hsession
    cases s.session c <;> simp only [SessionAt] <;> tauto

/-- Dropping the prompt while no call is between its check and its store leaves the
connection behind. -/
theorem Attending.drop (h : Attending c s) (hop : ∀ d ask, s.agent ≠ .checked d ask)
    (hdeparted : s.departed c = true) (phase : SessionPhase ι) :
    Gone c ((s.putSlot c none).enter c phase) := by
  have hdropped : ∀ ask, (s.channel ask.call = .live → s.pending c = some ask) →
      dropSender s.channel (s.pending c) ask.call ≠ .live := by
    intro ask hslot
    by_cases hlive : s.channel ask.call = .live
    · rw [hslot hlive]
      exact dropSender_self s.channel ask
    · rw [dropSender_of_ne_live hlive]
      exact hlive
  refine ⟨hdeparted, Function.update_self .., ?_⟩
  have hcall := h.call
  cases hphase : s.agent with
  | checked d ask => exact absurd hphase (hop d ask)
  | stored d ask =>
    rw [hphase] at hcall
    simp only [putSlot, enter, hphase]
    exact hdropped ask hcall.2
  | waiting ask =>
    rw [hphase] at hcall
    simp only [putSlot, enter, hphase]
    exact hdropped ask hcall
  | idle | resolved d ask | failed ask v | clearing d ask v =>
    simp only [putSlot, enter, hphase, CallGone]

/-- An open prompt stays in the slot. -/
theorem slot_of_live {gone : Prop} {op : SessionOp ι} {ask : Ask}
    (hat : SessionAt (s.departed c) gone (s.session c)) (hstep : SessionStep ctx s c op t)
    (hask : s.pending c = some ask) (hlive : t.channel ask.call = .live) :
    t.pending c = some ask := by
  cases hstep with
  | deliver tableId handId action hreading ht =>
    cases ht <;> simp only [takeSlot, trySend] at hlive ⊢ <;> grind
  | leaveDrop | strayDrop | closeDrop =>
    simp only [putSlot, enter] at hlive
    rw [hask] at hlive
    exact absurd hlive (dropSender_self s.channel ask)
  | _ =>
    rw [‹s.session c = _›] at hat
    first
    | exact hat.elim
    | exact hask

theorem Attending.sessionStep (h : Attending c s) {op : SessionOp ι}
    (hop : DropsUnchecked s (.session c op)) (hstep : SessionStep ctx s c op t) :
    Attending c t := by
  have hgone : Gone c s → Gone c t := fun hg => (hg.sessionStep h.session hstep).1
  refine ⟨h.numbered.sessionStep hstep, ?_, ?_, ?_⟩
  · rw [← h.current_eq]
    have hsession := h.session
    cases hstep with
    | deliver tableId handId action hreading ht => cases ht <;> rfl
    | replace hlifted =>
      rw [hlifted] at hsession
      exact hsession.elim
    | _ => rfl
  · -- the agent stands still; its prompt keeps its slot as long as it is open
    have hcall := h.call
    rw [hstep.agent_eq]
    have hslot : ∀ ask, (s.channel ask.call = .live → s.pending c = some ask) →
        t.channel ask.call = .live → t.pending c = some ask := by
      intro ask hask hlive
      exact slot_of_live h.session hstep (hask (hstep.live_of_live hlive)) hlive
    have hclosed : ∀ k, s.channel k = .closed → t.channel k = .closed := fun k hk =>
      (hstep.channel_settled (by simp [hk])).trans hk
    revert hcall
    cases s.agent with
    | stored d ask => exact fun hcall => ⟨hcall.1, hslot ask hcall.2⟩
    | waiting ask => exact hslot ask
    | failed ask v => exact Or.imp_right fun hv => ⟨hv.1, hclosed _ hv.2⟩
    | clearing d ask v => exact And.imp_right (Or.imp_right fun hv => ⟨hv.1, hclosed _ hv.2⟩)
    | idle | resolved d ask | checked d ask => exact id
  · -- where the session is, and that it dropped the prompt before it got past there
    have hsession := h.session
    cases hstep with
    | deliver tableId handId action hreading ht =>
      have hphase : t.session c = .reading := by cases ht <;> exact hreading
      rw [hphase]
      trivial
    | leaveDrop hphase =>
      rw [hphase] at hsession
      simpa [enter] using h.drop (hop c rfl) hsession .leaveDropped
    | leaveTable hphase | leaveRecord hphase =>
      rw [hphase] at hsession
      simpa [enter] using hgone hsession
    | closeRecord hphase =>
      simp only [enter, Function.update_self]
      split <;> trivial
    | _ =>
      rw [‹s.session c = _›] at hsession
      first
      | exact hsession.elim
      | simp [enter, trySend]

theorem Attending.step (h : Attending c s) {op : SeatOp ι} (hstep : LeaverStep ctx c s op t) :
    Attending c t := by
  obtain ⟨hof, hop, hstep⟩ := hstep
  cases op with
  | agent op => exact h.agentStep (agentStep_cases hstep)
  | session d op =>
    obtain rfl : d = c := hof
    exact h.sessionStep hop (sessionStep_cases hstep)

/-! ## From `LeftTable` on -/

/-- Since `s₁` the connection is left behind, and every call that came to its end
folded or had settled at `s₁`. -/
structure Folding (c : ι) (s₁ s : LiveSeat ι) : Prop where
  attending : Attending c s
  gone : Gone c s
  channel_eq : s.channel = s₁.channel
  verdicts : ∃ later, s.returned = s₁.returned ++ later ∧ ∀ r ∈ later, Settled s₁ r.1 r.2

/-- A call that returns now folds, or it had settled at `s₁`. -/
theorem Folding.agentStep (h : Folding c s₁ s) {op : AgentOp} (hstep : AgentStep ctx s op t) :
    Folding c s₁ t := by
  obtain ⟨hgone, hchannel⟩ := h.gone.agentStep h.attending.call hstep
  refine ⟨h.attending.agentStep hstep, hgone, hchannel.trans h.channel_eq, ?_⟩
  obtain ⟨later, hlater, hsettled⟩ := h.verdicts
  have hcall := h.attending.call
  have hreturn : ∀ ask v, Settled s₁ ask.call v →
      ∃ later, (s.giveBack ask v).returned = s₁.returned ++ later ∧
        ∀ r ∈ later, Settled s₁ r.1 r.2 := by
    intro ask v hv
    refine ⟨later ++ [(ask.call, v)], ?_, ?_⟩
    · simp [giveBack, hlater]
    · intro r hr
      obtain hr | hr := List.mem_append.mp hr
      · exact hsettled r hr
      · obtain rfl := List.mem_singleton.mp hr
        exact hv
  cases hstep with
  | fold hphase _ => exact hreturn _ _ .departed
  | receive hphase hanswer => exact hreturn _ _ (.answered (h.channel_eq ▸ hanswer))
  | clear hphase =>
    rw [hphase] at hcall
    obtain ⟨-, rfl | ⟨rfl, hclosed⟩⟩ := hcall
    · exact hreturn _ _ .dropped
    · exact hreturn _ _ (.elapsed (h.channel_eq ▸ hclosed))
  | resolve | pass | store | send | lose | expire | resolveAgain => exact ⟨later, hlater, hsettled⟩

theorem Folding.step (h : Folding c s₁ s) {op : SeatOp ι} (hstep : LeaverStep ctx c s op t) :
    Folding c s₁ t := by
  have hattending := h.attending.step hstep
  obtain ⟨hof, -, hstep⟩ := hstep
  cases op with
  | agent op => exact h.agentStep (agentStep_cases hstep)
  | session d op =>
    obtain rfl : d = c := hof
    have hstep := sessionStep_cases hstep
    obtain ⟨hgone, hchannel⟩ := h.gone.sessionStep h.attending.session hstep
    exact ⟨hattending, hgone, hchannel.trans h.channel_eq, hstep.returned_eq ▸ h.verdicts⟩

theorem Ends.of_idle (h : s.agent = .idle) : Ends ctx s := ⟨[], s, .nil s, h⟩

theorem Ends.cons {op : AgentOp} (hop : op ≠ .expire) (h : s.agentStep ctx op = some t)
    (ht : Ends ctx t) : Ends ctx s := by
  obtain ⟨ops, u, hrest, hidle⟩ := ht
  exact ⟨op :: ops, u, .cons ⟨hop, h⟩ hrest, hidle⟩

/-- A call without an answer clears the slot and is over. -/
theorem Ends.of_clearing {d : ι} {ask : Ask} {v : Verdict} (h : s.agent = .clearing d ask v) :
    Ends ctx s := by
  have hclear : s.agentStep ctx .clear = some ((s.putSlot d none).giveBack ask v) := by
    rw [LiveSeat.agentStep, h]
  exact .cons (by simp) hclear (.of_idle rfl)

theorem Ends.of_failed {ask : Ask} {v : Verdict} (h : s.agent = .failed ask v) :
    Ends ctx s := by
  have hresolve : s.agentStep ctx .resolveAgain =
      some { s with agent := .clearing s.current ask v } := by
    rw [LiveSeat.agentStep, h]
  exact .cons (by simp) hresolve (.of_clearing rfl)

/-- A call whose channel has settled comes to its end. -/
theorem Ends.of_waiting {ask : Ask} (h : s.agent = .waiting ask)
    (hsettled : s.channel ask.call ≠ .live) (hopen : s.channel ask.call ≠ .closed) :
    Ends ctx s := by
  cases hchannel : s.channel ask.call with
  | live => exact absurd hchannel hsettled
  | closed => exact absurd hchannel hopen
  | answered action =>
    have hreceive : s.agentStep ctx .receive = some (s.giveBack ask (.answered action)) := by
      simp only [LiveSeat.agentStep, h, hchannel]
    exact .cons (by simp) hreceive (.of_idle rfl)
  | dropped =>
    have hlose : s.agentStep ctx .lose = some { s with agent := .failed ask .dropped } := by
      simp only [LiveSeat.agentStep, h, hchannel, if_true]
    exact .cons (by simp) hlose (.of_failed rfl)

/-- A call on a connection that is left behind comes to its end by itself. -/
theorem Gone.ends (h : Gone c s) (hat : Attending c s) : Ends ctx s := by
  have hcall := hat.call
  have hnumber := hat.numbered.call
  have hgone := h.call
  cases hphase : s.agent with
  | idle => exact .of_idle hphase
  | checked d ask =>
    rw [hphase] at hgone
    exact hgone.elim
  | resolved d ask =>
    rw [hphase] at hcall
    obtain rfl : d = c := hcall
    have hcheck : s.agentStep ctx .check = some (s.giveBack ask .departed) := by
      rw [LiveSeat.agentStep, hphase]
      exact congrArg some (if_pos h.departed)
    exact .cons (by simp) hcheck (.of_idle rfl)
  | stored d ask =>
    rw [hphase] at hgone hnumber
    have hsend : s.agentStep ctx .send = some
        { s.trySend d (ask.prompt.prompt ctx.deadlineMs) with agent := .waiting ask } := by
      rw [LiveSeat.agentStep, hphase]
    exact .cons (by simp) hsend (.of_waiting rfl hgone hnumber.2)
  | waiting ask =>
    rw [hphase] at hgone hnumber
    exact .of_waiting hphase hgone hnumber.2
  | failed ask v => exact .of_failed hphase
  | clearing d ask v => exact .of_clearing hphase

theorem Folding.onlyFolds (h : Folding c s₁ s) : OnlyFolds ctx c s₁ s where
  no_store d ask hphase := by
    have hgone := h.gone.call
    rw [hphase] at hgone
    exact hgone
  no_slot := h.gone.no_slot
  no_wait ask hphase := by
    have hgone := h.gone.call
    rw [hphase] at hgone
    exact hgone
  verdicts := h.verdicts
  ends := h.gone.ends h.attending

/-- In every run of the agent and of the session of its connection in which no call is
between its check and its store when a leave drops the prompt: from `LeftTable` on,
every call folds at once unless it had settled before. -/
theorem leaver_only_folds {s₀ : LiveSeat ι} {before after : List (SeatOp ι)}
    (hbefore : Trace (LeaverStep ctx c) (start c) before s₀)
    (hleft : s₀.step ctx (.session c .leaveReply) = some s₁)
    (hafter : Trace (LeaverStep ctx c) s₁ after s) : OnlyFolds ctx c s₁ s := by
  have hattending : Attending c s₀ :=
    hbefore.invariant (Attending c) (fun _ _ _ h => h.step) (attending_start c)
  have hstep : SessionStep ctx s₀ c .leaveReply s₁ := sessionStep_cases hleft
  have hgone : Gone c s₀ := by
    cases hstep with
    | leaveReply hphase =>
      have hsession := hattending.session
      rw [hphase] at hsession
      exact hsession
  have hleaver : LeaverStep ctx c s₀ (.session c .leaveReply) s₁ :=
    ⟨rfl, nofun, hleft⟩
  have hfolding : Folding c s₁ s₁ :=
    ⟨hattending.step hleaver, (hgone.sessionStep hattending.session hstep).1, rfl, [],
      (List.append_nil _).symm, fun r hr => absurd hr List.not_mem_nil⟩
  exact (hafter.invariant (Folding c s₁) (fun _ _ _ h => h.step) hfolding).onlyFolds

/-- What is played since `s₁` was answered before. -/
theorem OnlyFolds.channel_of_answered (h : OnlyFolds ctx c s₁ s) {call : ℕ} {action : Action}
    (hmem : (call, .answered action) ∈ s.returned)
    (hnew : (call, .answered action) ∉ s₁.returned) : s₁.channel call = .answered action := by
  obtain ⟨later, hlater, hsettled⟩ := h.verdicts
  rw [hlater, List.mem_append] at hmem
  cases hsettled _ (hmem.resolve_left hnew) with
  | answered hanswer => exact hanswer

section Example

/-- Table 7 tells its players about seat 0. -/
def seatZero : SeatContext := ⟨7, 0, [], 15000⟩

/-- The prompt of the big blind before the flop, with nothing to call. -/
def bigBlindPrompt : PendingAction := ⟨7, 1, 0, ⟨true, false, 0, true, 4, 100, 100⟩⟩

/-- The player leaves while a call waits. -/
def leaveWaiting : List (SeatOp ℕ) :=
  [.agent (.resolve bigBlindPrompt), .agent .check, .agent .store, .agent .send,
    .session 0 .leaveDepart, .session 0 .leaveDrop, .session 0 .leaveTable,
    .session 0 .leaveRecord]

/-- An action of the player comes too late, and another call follows. -/
def askAgain : List (SeatOp ℕ) :=
  [.session 0 (.deliver 7 1 .check), .agent .lose, .agent .resolveAgain, .agent .clear,
    .agent (.resolve bigBlindPrompt), .agent .check]

/-- Both calls fold. -/
theorem leaver_folds_twice : ∃ s₁ s, OnlyFolds seatZero 0 s₁ s ∧ s₁.returned = [] ∧
    s.returned = [(0, .dropped), (1, .departed)] :=
  ⟨_, _, leaver_only_folds
    -- nobody is between check and store at the sixth step, where the prompt is dropped
    (.cons ⟨trivial, nofun, rfl⟩ <| .cons ⟨trivial, nofun, rfl⟩ <|
      .cons ⟨trivial, nofun, rfl⟩ <| .cons ⟨trivial, nofun, rfl⟩ <|
      .cons ⟨rfl, nofun, rfl⟩ <| .cons ⟨rfl, fun _ _ _ _ => nofun, rfl⟩ <|
      .cons ⟨rfl, nofun, rfl⟩ <| .cons ⟨rfl, nofun, rfl⟩ <| .nil _ :
      Trace _ _ leaveWaiting _)
    rfl
    (.cons ⟨rfl, nofun, rfl⟩ <| .cons ⟨trivial, nofun, rfl⟩ <| .cons ⟨trivial, nofun, rfl⟩ <|
      .cons ⟨trivial, nofun, rfl⟩ <| .cons ⟨trivial, nofun, rfl⟩ <|
      .cons ⟨trivial, nofun, rfl⟩ <| .nil _ : Trace _ _ askAgain _),
    rfl, rfl⟩

/-- A call has checked the mark before the player leaves, and stores its prompt
afterwards. -/
def leaveRacing : List (SeatOp ℕ) :=
  [.agent (.resolve bigBlindPrompt), .agent .check, .session 0 .leaveDepart,
    .session 0 .leaveDrop, .session 0 .leaveTable, .session 0 .leaveRecord]

/-- The prompt is sent, and an action of the player answers it. -/
def answerLate : List (SeatOp ℕ) :=
  [.agent .store, .agent .send, .session 0 (.deliver 7 1 .check), .agent .receive]

/-- The call stores its prompt after `LeftTable`, and an action that the player
submits then is played. -/
theorem leaver_prompted : ∃ s₀ s₁ s, Runs seatZero (start 0) leaveRacing s₀ ∧
    s₀.step seatZero (.session 0 .leaveReply) = some s₁ ∧ Runs seatZero s₁ answerLate s ∧
    (∀ op ∈ leaveRacing ++ answerLate, IsOf 0 op) ∧ s₁.returned = [] ∧
    s.returned = [(0, .answered .check)] ∧ ¬ OnlyFolds seatZero 0 s₁ s := by
  refine ⟨_, _, _, Trace.of_foldlM rfl, rfl, Trace.of_foldlM rfl, ?_, rfl, rfl, fun h => ?_⟩
  · simp [leaveRacing, answerLate, IsOf]
  · -- the call had no answer at `LeftTable`
    have hanswer : Channel.live = .answered .check :=
      h.channel_of_answered (List.mem_singleton_self (0, Verdict.answered .check))
        List.not_mem_nil
    cases hanswer

end Example

end LiveSeat

end VibePoker.Server
