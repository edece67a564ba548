import VibePoker.Server.Numbering

/-!
# Handing a seat over to a new session

A player who logs in again takes the seat over in the middle of the hand. The new
session moves the prompt that waits from the old connection to its own, while the
agent may be asking and the old session may be cleaning up. The seat is kept if three
races do not happen; each of them loses the prompt or folds the hand.

## Main definitions

* `IsHandoff` — the sections that take part
* `Orderly` — no section falls into a gap of another party
* `SeatKept` — what is to hold of the seat all along

## Main results

* `handoff_keeps_seat` — the orderly runs
* `handoff_loses_seat` — two runs that are not
-/

namespace VibePoker.Server

open VibePoker.Core VibePoker.Game VibePoker.Net VibePoker.CS

variable {ι : Type*}

/-- The takeover has not taken the prompt of the old connection yet. -/
@[simp, grind =]
def SessionPhase.BeforeLift : SessionPhase ι → Prop
  | .offline | .entered | .joined | .found _ => True
  | .lifted _ | .replaced _ | .restored _ | .reading | .leaveDeparted | .leaveDropped
  | .leaveMarked | .leaveRecorded | .strayDeparted | .strayDropped | .closeDeparted
  | .closeDropped | .closeKept | .closeRecorded | .closed => False

namespace LiveSeat

/-! ## The statement -/

/-- The sections of the agent, of the login of `new` and its takeover, of the end of the
session of `old`, and the actions that are submitted to both. -/
def IsHandoff (old new : ι) : SeatOp ι → Prop
  | .agent _ => True
  | .session c (.deliver _ _ _) => c = old ∨ c = new
  | .session c (.login d) => c = new ∧ d = old
  | .session c .join | .session c .lookUp | .session c .lift | .session c .replace
  | .session c .restore | .session c .reprompt => c = new
  | .session c .closeDepart | .session c .closeDrop | .session c .closeRead
  | .session c .closeRecord | .session c .closeForce => c = old
  | .session _ .leaveDepart | .session _ .leaveDrop | .session _ .leaveTable
  | .session _ .leaveRecord | .session _ .leaveReply | .session _ .strayDepart
  | .session _ .strayDrop | .session _ .strayReply => False

/-- No section falls into a gap of another party:

* a call that looked the old connection up checks it before its session ends, and
  stores the prompt there before the takeover empties the slot;
* no call stores a prompt at the new connection while the takeover carries one;
* the end of the old session finds no open prompt in its slot. -/
def Orderly (old new : ι) (s : LiveSeat ι) : SeatOp ι → Prop
  | .agent .check => ∀ ask, s.agent = .resolved old ask → s.departed old = false
  | .agent .store =>
    (∀ ask, s.agent = .checked old ask → (s.session new).BeforeLift) ∧
      ∀ ask migrated, s.agent = .checked new ask → s.session new ≠ .replaced (some migrated)
  | .session _ .closeDrop => ∀ ask, s.pending old = some ask → s.channel ask.call ≠ .live
  | _ => True

variable [DecidableEq ι] {ctx : SeatContext} {old new : ι} {s t : LiveSeat ι}

/-- A section of a handoff in which the old session is superseded before its end reads
whether it is. -/
def HandoffStep (ctx : SeatContext) (old new : ι) (s : LiveSeat ι) (op : SeatOp ι)
    (t : LiveSeat ι) : Prop :=
  IsHandoff old new op ∧ (op = .session old .closeRead → s.revoked old = true) ∧
    s.step ctx op = some t

def OrderlyStep (ctx : SeatContext) (old new : ι) (s : LiveSeat ι) (op : SeatOp ι)
    (t : LiveSeat ι) : Prop :=
  Orderly old new s op ∧ HandoffStep ctx old new s op t

/-- A call waits for an answer. -/
def Awaits (s : LiveSeat ι) (ask : Ask) : Prop :=
  (s.agent = .waiting ask ∨ ∃ c, s.agent = .stored c ask) ∧ s.channel ask.call = .live

/-- The sections of the session of `c` alone lead it to its reader loop. -/
def ReachesReader (ctx : SeatContext) (c : ι) (s : LiveSeat ι) : Prop :=
  ∃ ops t, Trace (fun s op t => s.sessionStep ctx c op = some t) s ops t ∧
    t.session c = .reading

/-- The seat is not folded, its prompt is at the new connection once the takeover is
over, and the player does not leave. -/
structure SeatKept (ctx : SeatContext) (new : ι) (s : LiveSeat ι) : Prop where
  /-- No call folded because its connection departed or its prompt was dropped, -/
  folds : ∀ r ∈ s.returned, r.2 ≠ .departed ∧ r.2 ≠ .dropped
  /-- and none will. -/
  dropped : ∀ ask, s.agent = .waiting ask ∨ (∃ c, s.agent = .stored c ask) →
    s.channel ask.call ≠ .dropped
  /-- Nothing but the prompt that awaits its answer is in the slot. -/
  slot : s.session new = .reading → ∀ ask, s.Awaits ask → s.pending new = some ask
  told : s.session new = .reading → ∀ ask, s.agent = .waiting ask →
    s.channel ask.call = .live → ask.prompt.prompt ctx.deadlineMs ∈ s.sent new
  stays : s.leavePending = false
  /-- A takeover that has begun comes to its end by itself. -/
  ends : s.session new ≠ .offline → ReachesReader ctx new s

/-! ## Where the prompt is -/

/-- Where the prompt that awaits its answer is, by the phase of the takeover. -/
@[simp, grind =]
def Located (pendingOld pendingNew : Option Ask) (ask : Ask) : SessionPhase ι → Prop
  | .offline | .entered | .joined | .found _ => pendingOld = some ask
  | .lifted migrated => migrated = some ask
  | .replaced migrated => migrated = some ask ∨ (migrated = none ∧ pendingNew = some ask)
  | .restored _ | .reading => pendingNew = some ask
  | .leaveDeparted | .leaveDropped | .leaveMarked | .leaveRecorded | .strayDeparted
  | .strayDropped | .closeDeparted | .closeDropped | .closeKept | .closeRecorded
  | .closed => False

/-- The new client was told, or the takeover is going to tell it. -/
@[simp, grind =]
def Told (told : Prop) (ask : Ask) : SessionPhase ι → Prop
  | .offline | .entered | .joined | .found _ | .lifted _ => True
  | .replaced migrated | .restored migrated => migrated = some ask ∨ told
  | .reading => told
  | .leaveDeparted | .leaveDropped | .leaveMarked | .leaveRecorded | .strayDeparted
  | .strayDropped | .closeDeparted | .closeDropped | .closeKept | .closeRecorded
  | .closed => False

/-- The link and the new slot, by the phase of the takeover. -/
@[simp, grind =]
def TakesOver (old new current : ι) (pendingNew : Option Ask) : SessionPhase ι → Prop
  | .offline | .entered | .joined | .lifted _ => current = old ∧ pendingNew = none
  | .found d => d = old ∧ current = old ∧ pendingNew = none
  | .replaced migrated => current = new ∧ (migrated = none ∨ pendingNew = none)
  | .restored _ | .reading => current = new
  | .leaveDeparted | .leaveDropped | .leaveMarked | .leaveRecorded | .strayDeparted
  | .strayDropped | .closeDeparted | .closeDropped | .closeKept | .closeRecorded
  | .closed => False

/-- The old session reads or comes to its end; it is superseded. -/
@[simp, grind =]
def WindsDown : SessionPhase ι → Prop
  | .reading | .closeDeparted | .closeDropped | .closed => True
  | .offline | .entered | .joined | .found _ | .lifted _ | .replaced _ | .restored _
  | .leaveDeparted | .leaveDropped | .leaveMarked | .leaveRecorded | .strayDeparted
  | .strayDropped | .closeKept | .closeRecorded => False

/-- The running call works with one of the two connections; `located` and `told` say
where its prompt is. -/
@[simp, grind =]
def CallMoves (old new current : ι) (channel : ℕ → Channel) (located told : Ask → Prop) :
    AgentPhase ι → Prop
  | .idle => True
  | .resolved c _ | .checked c _ => c = old ∨ (c = new ∧ current = new)
  | .stored c ask => (c = old ∨ (c = new ∧ current = new)) ∧ channel ask.call ≠ .dropped ∧
      (channel ask.call = .live → located ask ∧ (c = new ∨ told ask))
  | .waiting ask => channel ask.call ≠ .dropped ∧
      (channel ask.call = .live → located ask ∧ told ask)
  | .failed _ verdict => verdict = .elapsed
  | .clearing c _ verdict => (c = old ∨ c = new) ∧ verdict = .elapsed

/-- Where everything is during an orderly handoff. -/
structure Handing (ctx : SeatContext) (old new : ι) (s : LiveSeat ι) : Prop where
  numbered : s.Numbered
  takes : TakesOver old new s.current (s.pending new) (s.session new)
  winds : WindsDown (s.session old)
  here : s.departed new = false
  member : s.member = true
  stays : s.leavePending = false
  call : CallMoves old new s.current s.channel
    (fun ask => Located (s.pending old) (s.pending new) ask (s.session new))
    (fun ask => Told (ask.prompt.prompt ctx.deadlineMs ∈ s.sent new) ask (s.session new)) s.agent
  folds : ∀ r ∈ s.returned, r.2 ≠ .departed ∧ r.2 ≠ .dropped

theorem handing_start (hne : old ≠ new) : Handing ctx old new (start old) where
  numbered := numbered_start old
  takes := by simp [start, hne.symm]
  winds := by simp [start]
  here := rfl
  member := rfl
  stays := rfl
  call := trivial
  folds r hr := absurd hr List.not_mem_nil

omit [DecidableEq ι] in
theorem TakesOver.current {current : ι} {pendingNew : Option Ask} {phase : SessionPhase ι}
    (h : TakesOver old new current pendingNew phase) : current = old ∨ current = new := by
  cases phase <;> simp only [TakesOver] at h <;> tauto

omit [DecidableEq ι] in
theorem TakesOver.clear {current : ι} {pendingNew : Option Ask} {phase : SessionPhase ι}
    (h : TakesOver old new current pendingNew phase) :
    TakesOver old new current none phase := by
  cases phase <;> simp only [TakesOver] at h ⊢ <;> tauto

omit [DecidableEq ι] in
theorem TakesOver.told {current : ι} {pendingNew : Option Ask} {phase : SessionPhase ι}
    (h : TakesOver old new current pendingNew phase) {told : Prop} (htold : told) (ask : Ask) :
    Told told ask phase := by
  cases phase <;> simp only [TakesOver, Told] at h ⊢ <;> tauto

omit [DecidableEq ι] in
theorem Told.mono {told told' : Prop} {ask : Ask} {phase : SessionPhase ι}
    (h : Told told ask phase) (himp : told → told') : Told told' ask phase := by
  cases phase <;> simp only [Told] at h ⊢ <;> tauto

/-- A call that comes back without having lost its prompt. -/
theorem folds_append {returned : List (ℕ × Verdict)}
    (h : ∀ r ∈ returned, r.2 ≠ .departed ∧ r.2 ≠ .dropped) (call : ℕ) {v : Verdict}
    (hv : v ≠ .departed ∧ v ≠ .dropped) :
    ∀ r ∈ returned ++ [(call, v)], r.2 ≠ .departed ∧ r.2 ≠ .dropped := by
  intro r hr
  obtain hr | hr := List.mem_append.mp hr
  · exact h r hr
  · obtain rfl := List.mem_singleton.mp hr
    exact hv

omit [DecidableEq ι] in
/-- Once the link leads to `new` and no prompt is on its way there, one can be stored. -/
theorem TakesOver.fill (pendingOld : Option Ask) {pendingNew : Option Ask}
    {phase : SessionPhase ι} (h : TakesOver old new new pendingNew phase) (hne : old ≠ new)
    (hfree : ∀ migrated, phase ≠ .replaced (some migrated)) (ask : Ask) :
    TakesOver old new new (some ask) phase ∧ Located pendingOld (some ask) ask phase := by
  cases phase with
  | replaced migrated =>
    cases migrated with
    | none => simp
    | some m => exact absurd rfl (hfree m)
  | _ => grind

/-- The slot of a call that stores its prompt at the right moment. -/
theorem Handing.store (h : Handing ctx old new s) (hne : old ≠ new) {c : ι} {ask : Ask}
    (hphase : s.agent = .checked c ask) (hop : Orderly old new s (.agent .store)) :
    Handing ctx old new { s.putSlot c (some ask) with agent := .stored c ask } := by
  obtain ⟨hnumbered, htakes, hwinds, hhere, hmember, hstays, hcall, hfolds⟩ := h
  have hstep : AgentStep ctx s .store { s.putSlot c (some ask) with agent := .stored c ask } :=
    .store hphase
  have hnum := hnumbered.call
  rw [hphase] at hcall hnum
  obtain ⟨-, hlive, hfresh⟩ := hnum
  -- nobody else has the number of the call
  have hkept : dropSender s.channel (s.pending c) ask.call = .live := by
    rw [dropSender_eq, if_neg]
    · exact hlive
    · rintro ⟨⟨q, hq, hcallq⟩, -⟩
      exact hfresh q ⟨c, Or.inl hq⟩ hcallq
  obtain rfl | ⟨rfl, hcurrent⟩ := hcall
  · -- the takeover has yet to come
    have hbefore := hop.1 ask hphase
    refine ⟨hnumbered.agentStep hstep, ?_, hwinds, hhere, hmember, hstays, ?_, hfolds⟩
    · simpa [putSlot, hne.symm] using htakes
    · refine ⟨Or.inl rfl, by simp [putSlot, hkept], fun _ => ?_⟩
      simp only [putSlot]
      revert hbefore
      cases s.session new <;> simp
  · -- the takeover carries no prompt
    obtain ⟨hfill, hlocated⟩ := TakesOver.fill (s.pending old) (hcurrent ▸ htakes) hne
      (hop.2 ask · hphase) ask
    refine ⟨hnumbered.agentStep hstep, ?_, hwinds, hhere, hmember, hstays, ?_, hfolds⟩
    · simpa [putSlot, hcurrent] using hfill
    · refine ⟨Or.inr ⟨rfl, hcurrent⟩, by simp [putSlot, hkept], fun _ => ⟨?_, Or.inl rfl⟩⟩
      simpa [putSlot, hne] using hlocated

theorem Handing.agentStep (h : Handing ctx old new s) (hne : old ≠ new) {op : AgentOp}
    (hop : Orderly old new s (.agent op)) (hstep : AgentStep ctx s op t) :
    Handing ctx old new t := by
  have hnumbered := h.numbered.agentStep hstep
  have hall := h
  obtain ⟨-, htakes, hwinds, hhere, hmember, hstays, hcall, hfolds⟩ := h
  cases hstep with
  | resolve prompt hphase =>
    exact ⟨hnumbered, htakes, hwinds, hhere, hmember, hstays,
      htakes.current.imp_right fun hcurrent => ⟨hcurrent, hcurrent⟩, hfolds⟩
  | fold hphase hdeparted =>
    rw [hphase] at hcall
    obtain rfl | ⟨rfl, -⟩ := hcall
    · exact absurd (hop _ hphase) (by simp [hdeparted])
    · exact absurd hhere (by simp [hdeparted])
  | pass hphase =>
    rw [hphase] at hcall
    exact ⟨hnumbered, htakes, hwinds, hhere, hmember, hstays, hcall, hfolds⟩
  | store hphase => exact hall.store hne hphase hop
  | send hphase =>
    rw [hphase] at hcall
    refine ⟨hnumbered, htakes, hwinds, hhere, hmember, hstays, ⟨hcall.2.1, fun hlive => ?_⟩,
      hfolds⟩
    -- the question is located before it is sent, whichever session holds the slot
    obtain ⟨hlocated, htold⟩ := hcall.2.2 hlive
    refine ⟨hlocated, ?_⟩
    obtain rfl | htold := htold
    · exact htakes.told (by simp [trySend]) _
    · refine htold.mono fun hsent => ?_
      simp only [trySend, Function.update_apply]
      split
      · rename_i heq
        exact List.mem_append_left _ (heq ▸ hsent)
      · exact hsent
  | receive hphase hanswer =>
    exact ⟨hnumbered, htakes, hwinds, hhere, hmember, hstays, trivial,
      folds_append hfolds _ (by simp)⟩
  | lose hphase hdropped =>
    rw [hphase] at hcall
    exact absurd hdropped hcall.1
  | expire hphase hlive =>
    exact ⟨hnumbered, htakes, hwinds, hhere, hmember, hstays, rfl, hfolds⟩
  | resolveAgain hphase =>
    rw [hphase] at hcall
    exact ⟨hnumbered, htakes, hwinds, hhere, hmember, hstays, ⟨htakes.current, hcall⟩, hfolds⟩
  | @clear c ask v hphase =>
    rw [hphase] at hcall
    refine ⟨hnumbered, ?_, hwinds, hhere, hmember, hstays, trivial,
      folds_append hfolds _ (by simp [hcall.2])⟩
    simp only [giveBack, putSlot, Function.update_apply]
    split
    · exact htakes.clear
    · exact htakes

/-! ## The sections of the sessions -/

/-- An action that is submitted takes the prompt that it answers, and no other. -/
theorem Delivered.pending_of_live {c d : ι} {tableId handId : ℕ} {action : Action}
    (h : Delivered s c tableId handId action t) {ask : Ask} (hask : s.pending d = some ask)
    (hlive : t.channel ask.call = .live) : t.pending d = some ask := by
  cases h with
  | rejected => exact hask
  | answers hslot _ _ _ _ | late hslot _ _ _ hgone =>
    simp only [takeSlot, trySend] at hlive ⊢
    grind

/-- It leaves everything alone but the slots, the channels and the queues. -/
theorem Delivered.frame {c : ι} {tableId handId : ℕ} {action : Action}
    (h : Delivered s c tableId handId action t) :
    t.current = s.current ∧ t.departed = s.departed ∧ t.session = s.session ∧
      t.member = s.member ∧ t.leavePending = s.leavePending := by
  cases h <;> exact ⟨rfl, rfl, rfl, rfl, rfl⟩

theorem Delivered.sent_mono {c d : ι} {tableId handId : ℕ} {action : Action}
    (h : Delivered s c tableId handId action t) {msg : ServerMessage}
    (hmsg : msg ∈ s.sent d) : msg ∈ t.sent d := by
  cases h <;> simp only [takeSlot, trySend] <;> grind

theorem Delivered.pending_eq {c : ι} {tableId handId : ℕ} {action : Action}
    (h : Delivered s c tableId handId action t) (d : ι) :
    t.pending d = s.pending d ∨ t.pending d = none := by
  cases h <;> simp only [takeSlot, trySend] <;> grind

theorem Delivered.dropped {c : ι} {tableId handId : ℕ} {action : Action}
    (h : Delivered s c tableId handId action t) {k : ℕ} (hk : t.channel k = .dropped) :
    s.channel k = .dropped := by
  cases h <;> simp only [takeSlot, trySend] at hk <;> grind

omit [DecidableEq ι] in
/-- The running call is where it was if its prompt is. -/
theorem CallMoves.imp {current current' : ι} {channel channel' : ℕ → Channel}
    {located located' told told' : Ask → Prop} {phase : AgentPhase ι}
    (h : CallMoves old new current channel located told phase)
    (hcurrent : current = new → current' = new)
    (hdropped : ∀ k, channel' k = .dropped → channel k = .dropped)
    (hmoves : ∀ ask, channel' ask.call = .live → channel ask.call = .live ∧
      (located ask → located' ask ∧ (told ask → told' ask))) :
    CallMoves old new current' channel' located' told' phase := by
  cases phase with
  | idle | failed _ _ | clearing _ _ _ => exact h
  | resolved c ask | checked c ask => exact h.imp_right (And.imp_right hcurrent)
  | stored c ask =>
    refine ⟨h.1.imp_right (And.imp_right hcurrent), fun hd => h.2.1 (hdropped _ hd), ?_⟩
    intro hlive
    obtain ⟨hlive, himp⟩ := hmoves ask hlive
    obtain ⟨hlocated, htold⟩ := h.2.2 hlive
    exact ⟨(himp hlocated).1, htold.imp_right (himp hlocated).2⟩
  | waiting ask =>
    refine ⟨fun hd => h.1 (hdropped _ hd), fun hlive => ?_⟩
    obtain ⟨hlive, himp⟩ := hmoves ask hlive
    obtain ⟨hlocated, htold⟩ := h.2 hlive
    exact ⟨(himp hlocated).1, (himp hlocated).2 htold⟩

omit [DecidableEq ι] in
/-- `Located` asks for the slots only where the prompt is in them. -/
theorem Located.imp {pendingOld pendingNew pendingOld' pendingNew' : Option Ask} {ask : Ask}
    {phase : SessionPhase ι} (h : Located pendingOld pendingNew ask phase)
    (hold : pendingOld = some ask → pendingOld' = some ask)
    (hnew : pendingNew = some ask → pendingNew' = some ask) :
    Located pendingOld' pendingNew' ask phase := by
  cases phase <;> simp only [Located] at h ⊢ <;> tauto

theorem Handing.deliver (h : Handing ctx old new s) {c : ι} {tableId handId : ℕ}
    {action : Action} (hreading : s.session c = .reading)
    (ht : Delivered s c tableId handId action t) : Handing ctx old new t := by
  have hstep : SessionStep ctx s c (.deliver tableId handId action) t :=
    .deliver tableId handId action hreading ht
  obtain ⟨hcurrent, hdeparted, hsession, hmember, hleave⟩ := ht.frame
  refine ⟨h.numbered.sessionStep hstep, ?_, ?_, ?_, ?_, ?_, ?_, ?_⟩
  · rw [hcurrent, hsession]
    obtain heq | hnone := ht.pending_eq new
    · exact heq ▸ h.takes
    · exact hnone ▸ h.takes.clear
  · rw [hsession]
    exact h.winds
  · rw [hdeparted]
    exact h.here
  · exact hmember.trans h.member
  · exact hleave.trans h.stays
  · rw [hstep.agent_eq, hsession, hcurrent]
    refine h.call.imp id (fun k hk => ht.dropped hk) fun ask hlive =>
      ⟨hstep.live_of_live hlive, fun hlocated => ⟨?_, fun htold => htold.mono ht.sent_mono⟩⟩
    exact hlocated.imp (ht.pending_of_live · hlive) (ht.pending_of_live · hlive)
  · rw [hstep.returned_eq]
    exact h.folds

/-- The end of the old session, which is superseded. -/
theorem Handing.oldStep (h : Handing ctx old new s) (hne : old ≠ new) {op : SessionOp ι}
    (hof : IsHandoff old new (.session old op))
    (hsuperseded : op = .closeRead → s.revoked old = true)
    (hop : Orderly old new s (.session old op)) (hstep : SessionStep ctx s old op t) :
    Handing ctx old new t := by
  have hnumbered := h.numbered.sessionStep hstep
  have hall := h
  obtain ⟨-, htakes, hwinds, hhere, hmember, hstays, hcall, hfolds⟩ := h
  have hsession : ∀ phase, Function.update s.session old phase new = s.session new :=
    fun phase => Function.update_of_ne hne.symm _ _
  cases hstep with
  | deliver tableId handId action hreading ht => exact hall.deliver hreading ht
  | closeDepart hphase =>
    refine ⟨hnumbered, ?_, ?_, ?_, hmember, hstays, ?_, hfolds⟩
    · simpa [enter, hsession] using htakes
    · simp [enter]
    · simpa [enter, hne.symm] using hhere
    · simpa [enter, hsession] using hcall
  | closeDrop hphase =>
    -- the slot that is dropped holds no live question, so no channel closes
    have hchannel : dropSender s.channel (s.pending old) = s.channel := by
      cases hslot : s.pending old with
      | none => rfl
      | some ask => exact if_neg (hop ask hslot)
    refine ⟨hnumbered, ?_, ?_, hhere, hmember, hstays, ?_, hfolds⟩
    · simpa [enter, putSlot, hsession, hne.symm] using htakes
    · simp [enter]
    · simp only [enter, putSlot, hsession, hchannel, Function.update_of_ne hne.symm]
      refine hcall.imp id (fun _ => id) fun ask hlive => ⟨hlive, fun hlocated => ⟨?_, id⟩⟩
      exact hlocated.imp (fun hslot => absurd hlive (hop ask hslot)) id
  | superseded hphase hrevoked =>
    refine ⟨hnumbered, ?_, ?_, hhere, hmember, hstays, ?_, hfolds⟩
    · simpa [enter, hsession] using htakes
    · simp [enter]
    · simpa [enter, hsession] using hcall
  | kept hphase hkept => exact absurd (hsuperseded rfl) (by simp [hkept])
  | closeRecord hphase | closeForce hphase =>
    rw [hphase] at hwinds
    exact hwinds.elim
  | login | join | pass | lookUp | lift | replace | restoreNone | restore | repromptNone
  | reprompt => exact absurd hof (by simp [IsHandoff, hne])
  | leaveDepart | leaveDrop | leaveTable | leaveRecord | leaveReply | strayDepart | strayDrop
  | strayReply => exact hof.elim

/-- The takeover moves the prompt that waits. -/
theorem Handing.newStep (h : Handing ctx old new s) (hne : old ≠ new) {op : SessionOp ι}
    (hof : IsHandoff old new (.session new op)) (hstep : SessionStep ctx s new op t) :
    Handing ctx old new t := by
  have hnumbered := h.numbered.sessionStep hstep
  have hall := h
  obtain ⟨-, htakes, hwinds, hhere, hmember, hstays, hcall, hfolds⟩ := h
  have hwinds' : ∀ phase, WindsDown (Function.update s.session new phase old) := by
    intro phase
    rw [Function.update_of_ne hne]
    exact hwinds
  cases hstep with
  | deliver tableId handId action hreading ht => exact hall.deliver hreading ht
  | login d hphase =>
    rw [hphase] at htakes hcall
    refine ⟨hnumbered, ?_, hwinds' _, hhere, hmember, hstays, ?_, hfolds⟩
    · simpa [enter] using htakes
    · simpa [enter] using hcall
  | join hphase _ =>
    rw [hphase] at htakes hcall
    refine ⟨hnumbered, ?_, hwinds' _, hhere, hmember, hstays, ?_, hfolds⟩
    · simpa [enter, trySend] using htakes
    · simpa [enter, trySend] using hcall
  | pass hphase hgone => exact absurd hmember (by simp [hgone])
  | lookUp hphase =>
    rw [hphase] at htakes hcall
    refine ⟨hnumbered, ?_, hwinds' _, hhere, hmember, hstays, ?_, hfolds⟩
    · simpa [enter, htakes.1] using htakes
    · simpa [enter] using hcall
  | @lift d hphase =>
    rw [hphase] at htakes hcall
    obtain ⟨rfl, htakes⟩ := htakes
    refine ⟨hnumbered, ?_, hwinds' _, hhere, hmember, hstays, ?_, hfolds⟩
    · simpa [enter, takeSlot, hne.symm] using htakes
    · refine hcall.imp id (fun _ => id) fun ask hlive => ⟨hlive, fun hlocated => ?_⟩
      simpa [enter] using hlocated
  | replace hphase =>
    rw [hphase] at htakes hcall
    refine ⟨hnumbered, ?_, hwinds' _, hhere, hmember, hstays, ?_, hfolds⟩
    · simp [enter, htakes.2]
    · refine hcall.imp (fun _ => rfl) (fun _ => id) fun ask hlive => ⟨hlive, fun hlocated => ?_⟩
      simp only [Located] at hlocated
      simp [enter, hlocated]
  | restoreNone hphase =>
    rw [hphase] at htakes hcall
    refine ⟨hnumbered, ?_, hwinds' _, hhere, hmember, hstays, ?_, hfolds⟩
    · simp [enter, htakes.1]
    · refine hcall.imp id (fun _ => id) fun ask hlive => ⟨hlive, fun hlocated => ?_⟩
      simpa [enter] using hlocated
  | @restore m hphase =>
    rw [hphase] at htakes hcall
    -- a prompt is restored into an empty slot only, so that none is dropped
    have hempty : s.pending new = none := htakes.2.resolve_left (by simp)
    have hchannel : dropSender s.channel (s.pending new) = s.channel := by rw [hempty]; rfl
    refine ⟨hnumbered, ?_, hwinds' _, hhere, hmember, hstays, ?_, hfolds⟩
    · simp [enter, putSlot, htakes.1]
    · simp only [enter, putSlot, hchannel]
      refine hcall.imp id (fun _ => id) fun ask hlive => ⟨hlive, fun hlocated => ?_⟩
      simpa [hempty] using hlocated
  | repromptNone hphase =>
    rw [hphase] at htakes hcall
    refine ⟨hnumbered, ?_, hwinds' _, hhere, hmember, hstays, ?_, hfolds⟩
    · simpa [enter] using htakes
    · simpa [enter] using hcall
  | @reprompt m hphase =>
    rw [hphase] at htakes hcall
    refine ⟨hnumbered, ?_, hwinds' _, hhere, hmember, hstays, ?_, hfolds⟩
    · simpa [enter, trySend] using htakes
    · refine hcall.imp id (fun _ => id) fun ask hlive => ⟨hlive, fun hlocated => ?_⟩
      simp only [enter, trySend, Function.update_self, Told, Located] at hlocated ⊢
      refine ⟨hlocated, fun htold => List.mem_append.mpr ?_⟩
      obtain heq | htold := htold
      · obtain rfl := Option.some.inj heq
        exact Or.inr (List.mem_singleton_self _)
      · exact Or.inl htold
  | closeDepart | closeDrop | superseded | kept | closeRecord | closeForce =>
    exact absurd hof (by simp [IsHandoff, hne.symm])
  | leaveDepart | leaveDrop | leaveTable | leaveRecord | leaveReply | strayDepart | strayDrop
  | strayReply => exact hof.elim

theorem Handing.step (h : Handing ctx old new s) (hne : old ≠ new) {op : SeatOp ι}
    (hstep : OrderlyStep ctx old new s op t) : Handing ctx old new t := by
  obtain ⟨hop, hof, hsuperseded, hstep⟩ := hstep
  cases op with
  | agent op => exact h.agentStep hne hop (agentStep_cases hstep)
  | session c op =>
    have hstep : SessionStep ctx s c op t := sessionStep_cases hstep
    have hc : c = old ∨ c = new := by
      cases op <;> simp only [IsHandoff] at hof <;> tauto
    obtain rfl | rfl := hc
    · exact h.oldStep hne hof (fun hread => hsuperseded (hread ▸ rfl)) hop hstep
    · exact h.newStep hne hof hstep

/-! ## The seat is kept -/

theorem ReachesReader.cons {c : ι} {op : SessionOp ι} (h : s.sessionStep ctx c op = some t)
    (ht : ReachesReader ctx c t) : ReachesReader ctx c s := by
  obtain ⟨ops, u, hrest, hreading⟩ := ht
  exact ⟨op :: ops, u, .cons h hrest, hreading⟩

theorem ReachesReader.of_reading {c : ι} (h : s.session c = .reading) :
    ReachesReader ctx c s := ⟨[], s, .nil s, h⟩

theorem ReachesReader.of_restored {c : ι} {migrated : Option Ask}
    (h : s.session c = .restored migrated) : ReachesReader ctx c s := by
  cases migrated with
  | none =>
    have hstep : s.sessionStep ctx c .reprompt = some (s.enter c .reading) := by
      rw [LiveSeat.sessionStep, h]
    exact .cons hstep (.of_reading (Function.update_self ..))
  | some ask =>
    have hstep : s.sessionStep ctx c .reprompt =
        some ((s.trySend c (ask.prompt.prompt ctx.deadlineMs)).enter c .reading) := by
      rw [LiveSeat.sessionStep, h]
    exact .cons hstep (.of_reading (Function.update_self ..))

theorem ReachesReader.of_replaced {c : ι} {migrated : Option Ask}
    (h : s.session c = .replaced migrated) : ReachesReader ctx c s := by
  cases migrated with
  | none =>
    have hstep : s.sessionStep ctx c .restore = some (s.enter c (.restored none)) := by
      rw [LiveSeat.sessionStep, h]
    exact .cons hstep (.of_restored (Function.update_self ..))
  | some ask =>
    have hstep : s.sessionStep ctx c .restore =
        some ((s.putSlot c (some ask)).enter c (.restored (some ask))) := by
      rw [LiveSeat.sessionStep, h]
    exact .cons hstep (.of_restored (Function.update_self ..))

theorem ReachesReader.of_lifted {c : ι} {migrated : Option Ask}
    (h : s.session c = .lifted migrated) : ReachesReader ctx c s := by
  have hreplace : s.sessionStep ctx c .replace =
      some { s.enter c (.replaced migrated) with current := c } := by
    rw [LiveSeat.sessionStep, h]
  exact .cons hreplace (.of_replaced (Function.update_self ..))

theorem ReachesReader.of_found {c d : ι} (h : s.session c = .found d) :
    ReachesReader ctx c s := by
  have hlift : s.sessionStep ctx c .lift =
      some ((s.takeSlot d).enter c (.lifted (s.pending d))) := by
    rw [LiveSeat.sessionStep, h]
  exact .cons hlift (.of_lifted (Function.update_self ..))

theorem ReachesReader.of_joined {c : ι} (h : s.session c = .joined) :
    ReachesReader ctx c s := by
  have hlookUp : s.sessionStep ctx c .lookUp = some (s.enter c (.found s.current)) := by
    rw [LiveSeat.sessionStep, h]
  exact .cons hlookUp (.of_found (Function.update_self ..))

/-- Every takeover that has begun ends in the reader loop. -/
theorem TakesOver.reachesReader (h : TakesOver old new s.current (s.pending new) (s.session new))
    (hmember : s.member = true) (hbegun : s.session new ≠ .offline) :
    ReachesReader ctx new s := by
  cases hphase : s.session new with
  | offline => exact absurd hphase hbegun
  | entered =>
    have hjoin : s.sessionStep ctx new .join = some
        ((s.enter new .joined).trySend new (.joinedTable ctx.tableId ctx.seat ctx.seats)) := by
      rw [LiveSeat.sessionStep, hphase]
      exact congrArg some (if_pos hmember)
    exact .cons hjoin (.of_joined (Function.update_self ..))
  | joined => exact .of_joined hphase
  | found d => exact .of_found hphase
  | lifted migrated => exact .of_lifted hphase
  | replaced migrated => exact .of_replaced hphase
  | restored migrated => exact .of_restored hphase
  | reading => exact .of_reading hphase
  | _ =>
    rw [hphase] at h
    exact h.elim

theorem Handing.seatKept (h : Handing ctx old new s) : SeatKept ctx new s where
  folds := h.folds
  dropped ask hcall := by
    have hmoves := h.call
    obtain hphase | ⟨c, hphase⟩ := hcall
    · rw [hphase] at hmoves
      exact hmoves.1
    · rw [hphase] at hmoves
      exact hmoves.2.1
  slot hreading ask hawaits := by
    have hmoves := h.call
    rw [hreading] at hmoves
    obtain ⟨hphase | ⟨c, hphase⟩, hlive⟩ := hawaits
    · rw [hphase] at hmoves
      exact (hmoves.2 hlive).1
    · rw [hphase] at hmoves
      exact (hmoves.2.2 hlive).1
  told hreading ask hphase hlive := by
    have hmoves := h.call
    rw [hreading, hphase] at hmoves
    exact (hmoves.2 hlive).2
  stays := h.stays
  ends := h.takes.reachesReader h.member

/-- In every orderly handoff, the seat is kept. -/
theorem handoff_keeps_seat (hne : old ≠ new) {ops : List (SeatOp ι)}
    (hrun : Trace (OrderlyStep ctx old new) (start old) ops s) : SeatKept ctx new s :=
  (hrun.invariant (Handing ctx old new) (fun _ _ _ h => h.step hne) (handing_start hne)).seatKept

section Example

/-- Table 7 tells its players about seat 0. -/
def atSeatZero : SeatContext := ⟨7, 0, [], 15000⟩

/-- A prompt before the flop, with 2 to call. -/
def twoToCall : PendingAction := ⟨7, 1, 0, ⟨false, true, 2, true, 4, 100, 100⟩⟩

/-- The agent asks. -/
def asks : List (SeatOp ℕ) :=
  [.agent (.resolve twoToCall), .agent .check, .agent .store, .agent .send]

/-- The player logs in again, and the takeover moves the link. -/
def logsIn : List (SeatOp ℕ) :=
  [.session 1 (.login 0), .session 1 .join, .session 1 .lookUp, .session 1 .lift,
    .session 1 .replace]

/-- The takeover is over. -/
def resumes : List (SeatOp ℕ) := [.session 1 .restore, .session 1 .reprompt]

/-- The old session comes to its end. -/
def closes : List (SeatOp ℕ) :=
  [.session 0 .closeDepart, .session 0 .closeDrop, .session 0 .closeRead]

/-- A prompt waits when the player logs in again, and the new session answers it. -/
theorem handoff_keeps_seat_asked : ∃ s, SeatKept atSeatZero 1 s ∧ s.session 1 = .reading ∧
    s.agent = .waiting ⟨0, twoToCall⟩ ∧ s.channel 0 = .live :=
  ⟨_, handoff_keeps_seat (by decide)
    (.cons ⟨trivial, trivial, nofun, rfl⟩ <| .cons ⟨fun _ _ => rfl, trivial, nofun, rfl⟩ <|
      .cons ⟨⟨fun _ _ => trivial, fun _ _ h => nomatch h⟩, trivial, nofun, rfl⟩ <|
      .cons ⟨trivial, trivial, nofun, rfl⟩ <|
      .cons ⟨trivial, ⟨rfl, rfl⟩, nofun, rfl⟩ <| .cons ⟨trivial, rfl, nofun, rfl⟩ <|
      .cons ⟨trivial, rfl, nofun, rfl⟩ <| .cons ⟨trivial, rfl, nofun, rfl⟩ <|
      .cons ⟨trivial, rfl, nofun, rfl⟩ <|
      .cons ⟨trivial, rfl, nofun, rfl⟩ <| .cons ⟨nofun, rfl, nofun, rfl⟩ <|
      .cons ⟨trivial, rfl, fun _ => rfl, rfl⟩ <|
      .cons ⟨trivial, rfl, nofun, rfl⟩ <| .cons ⟨trivial, rfl, nofun, rfl⟩ <| .nil _ :
      Trace (OrderlyStep atSeatZero 0 1) (start 0) (asks ++ logsIn ++ closes ++ resumes) _),
    rfl, rfl, rfl⟩

instance (old new : ι) (op : SeatOp ι) : Decidable (IsHandoff old new op) := by
  unfold IsHandoff
  split <;> infer_instance

/-- A run of a handoff whose sections were checked one by one. -/
theorem handoff_of_foldlM {old new : ι} {ops : List (SeatOp ι)}
    (h : ops.foldlM (fun s op =>
      if IsHandoff old new op ∧ (op = .session old .closeRead → s.revoked old = true) then
        s.step ctx op
      else none) s = some t) : Trace (HandoffStep ctx old new) s ops t :=
  (Trace.of_foldlM_ite h).mono fun _ _ _ hstep => ⟨hstep.1.1, hstep.1.2, hstep.2⟩

/-- The old session comes to its end after the login, but before the takeover. -/
def closesEarly : List (SeatOp ℕ) :=
  asks ++ [.session 1 (.login 0)] ++ closes ++ [.agent .lose, .agent .resolveAgain, .agent .clear]

/-- The takeover empties the old slot while a call is about to store its prompt there. -/
def storesLate : List (SeatOp ℕ) :=
  [.agent (.resolve twoToCall), .agent .check] ++ logsIn ++ [.agent .store, .agent .send] ++
    resumes

/-- The deadline of a prompt passes while the takeover carries it, and the next call
stores its own. -/
def overtakes : List (SeatOp ℕ) :=
  asks ++ logsIn ++ [.agent .expire, .agent .resolveAgain, .agent .clear] ++ asks ++ resumes

/-- The call folds; its prompt stays in the old slot; the new prompt is replaced by the
old one. -/
theorem handoff_loses_seat :
    (∃ s, Trace (HandoffStep atSeatZero 0 1) (start 0) closesEarly s ∧
      s.returned = [(0, .dropped)] ∧ ¬ SeatKept atSeatZero 1 s) ∧
    (∃ s, Trace (HandoffStep atSeatZero 0 1) (start 0) storesLate s ∧
      s.session 1 = .reading ∧ s.Awaits ⟨0, twoToCall⟩ ∧ s.pending 1 = none ∧
      ¬ SeatKept atSeatZero 1 s) ∧
    ∃ s, Trace (HandoffStep atSeatZero 0 1) (start 0) overtakes s ∧
      s.agent = .waiting ⟨1, twoToCall⟩ ∧ s.pending 1 = some ⟨0, twoToCall⟩ ∧
      ¬ SeatKept atSeatZero 1 s := by
  refine ⟨⟨_, handoff_of_foldlM rfl, rfl, fun h => ?_⟩,
    ⟨_, handoff_of_foldlM rfl, rfl, ⟨Or.inl rfl, rfl⟩, rfl, fun h => ?_⟩,
    ⟨_, handoff_of_foldlM rfl, rfl, rfl, fun h => ?_⟩⟩
  · exact (h.folds _ (List.mem_singleton_self _)).2 rfl
  · have hslot : none = some (Ask.mk 0 twoToCall) := h.slot rfl _ ⟨Or.inl rfl, rfl⟩
    cases hslot
  · exact h.dropped ⟨1, twoToCall⟩ (Or.inl rfl) rfl

end Example

end LiveSeat

end VibePoker.Server
