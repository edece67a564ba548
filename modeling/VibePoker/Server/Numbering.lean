import VibePoker.Server.Handoff

/-!
# The numbers of the calls

Every `act` call of a hand has a number of its own, and only its own prompt carries
it: a call that has not stored its prompt yet finds nothing of its own in a slot or
on the way from one slot to another.

## Main definitions

* `LiveSeat.Held` — a prompt that is in a slot or on the way
* `LiveSeat.Numbered` — the numbers are in order

## Main results

* `Numbered.step` — every section keeps them in order
-/

namespace VibePoker.Server

open VibePoker.Game VibePoker.Net

variable {ι : Type*}

/-- The prompt that a session is taking over. -/
@[simp, grind =]
def SessionPhase.migrated? : SessionPhase ι → Option Ask
  | .lifted migrated | .replaced migrated => migrated
  | .offline | .entered | .joined | .found _ | .restored _ | .reading | .leaveDeparted
  | .leaveDropped | .leaveMarked | .leaveRecorded | .strayDeparted | .strayDropped
  | .closeDeparted | .closeDropped | .closeKept | .closeRecorded | .closed => none

namespace LiveSeat

variable [DecidableEq ι] {ctx : SeatContext} {s t : LiveSeat ι}

omit [DecidableEq ι] in
theorem dropSender_eq (channel : ℕ → Channel) (ask : Option Ask) (k : ℕ) :
    dropSender channel ask k =
      if (∃ q, ask = some q ∧ q.call = k) ∧ channel k = .live then .dropped else channel k := by
  cases ask with
  | none => simp [dropSender]
  | some q =>
    rw [dropSender]
    by_cases hk : q.call = k
    · subst hk
      split <;> simp_all
    · simp only [Option.some.injEq, exists_eq_left', hk, false_and, if_false]
      split
      · exact Function.update_of_ne (Ne.symm hk) _ _
      · rfl

omit [DecidableEq ι] in
/-- Nobody waits for a prompt that was dropped. -/
theorem dropSender_self (channel : ℕ → Channel) (ask : Ask) :
    dropSender channel (some ask) ask.call ≠ .live := by
  rw [dropSender]
  split
  · simp
  · assumption

omit [DecidableEq ι] in
/-- Dropping a prompt changes live channels only. -/
theorem dropSender_of_ne_live {channel : ℕ → Channel} {k : ℕ} (h : channel k ≠ .live)
    (ask : Option Ask) : dropSender channel ask k = channel k := by
  rw [dropSender_eq, if_neg fun hk => h hk.2]

omit [DecidableEq ι] in
theorem dropSender_open {channel : ℕ → Channel} {k : ℕ} (h : channel k ≠ .closed)
    (ask : Option Ask) : dropSender channel ask k ≠ .closed := by
  rw [dropSender_eq]
  split
  · simp
  · exact h

omit [DecidableEq ι] in
theorem channel_of_dropSender {channel : ℕ → Channel} {ask : Option Ask} {k : ℕ}
    {action : Action} (h : dropSender channel ask k = .answered action) :
    channel k = .answered action := by
  rw [dropSender_eq] at h
  split at h
  · cases h
  · exact h

/-- The prompt is in a slot or on the way to one. -/
def Held (s : LiveSeat ι) (ask : Ask) : Prop :=
  ∃ c, s.pending c = some ask ∨ (s.session c).migrated? = some ask

/-- The number of the running call is taken, until the call stores its prompt nobody
else knows it, and while the call waits nobody but the call closes the channel. -/
@[simp, grind =]
def CallNumbered (s : LiveSeat ι) : AgentPhase ι → Prop
  | .resolved _ ask | .checked _ ask => ask.call < s.asked.length ∧
      s.channel ask.call = .live ∧ ∀ held, s.Held held → held.call ≠ ask.call
  | .stored _ ask | .waiting ask => ask.call < s.asked.length ∧ s.channel ask.call ≠ .closed
  | .idle | .failed _ _ | .clearing _ _ _ => True

/-- The numbers of the calls are in order. -/
structure Numbered (s : LiveSeat ι) : Prop where
  unused : ∀ k, s.asked.length ≤ k → s.channel k = .live
  held_lt : ∀ ask, s.Held ask → ask.call < s.asked.length
  call : s.CallNumbered s.agent

theorem numbered_start (c : ι) : (start c).Numbered where
  unused _ _ := rfl
  held_lt ask h := by
    obtain ⟨d, hd | hd⟩ := h
    · cases hd
    · simp only [start] at hd
      split at hd <;> cases hd
  call := trivial

/-- A section of the agent takes the next number, or stores a prompt under its own. -/
theorem Numbered.agentStep (h : s.Numbered) {op : AgentOp} (hstep : AgentStep ctx s op t) :
    t.Numbered := by
  obtain ⟨hunused, hheld, hcall⟩ := h
  cases hstep with
  | _ =>
    rw [‹s.agent = _›] at hcall
    constructor <;> simp only [Held, putSlot, giveBack, trySend, CallNumbered] at * <;>
      grind [dropSender_eq]

omit [DecidableEq ι] in
/-- A section of a session moves prompts, and answers or drops those only. -/
theorem Numbered.of_held (h : s.Numbered) (hagent : t.agent = s.agent) (hasked : t.asked = s.asked)
    (hheld : ∀ ask, t.Held ask → s.Held ask)
    (hchannel : ∀ k, t.channel k ≠ s.channel k → ∃ ask, s.Held ask ∧ ask.call = k)
    (hopen : ∀ k, s.channel k ≠ .closed → t.channel k ≠ .closed) :
    t.Numbered := by
  have hkept : ∀ k, (∀ ask, s.Held ask → ask.call ≠ k) → t.channel k = s.channel k := by
    intro k hk
    by_contra hne
    obtain ⟨ask, hask, hcall⟩ := hchannel k hne
    exact hk ask hask hcall
  refine ⟨fun k hk => ?_, fun ask hask => ?_, ?_⟩
  · rw [hasked] at hk
    rw [hkept k fun ask hask heq => ?_]
    · exact h.unused k hk
    · have := h.held_lt ask hask
      omega
  · rw [hasked]
    exact h.held_lt ask (hheld ask hask)
  · have hcall := h.call
    rw [hagent]
    cases hphase : s.agent with
    | resolved c ask | checked c ask =>
      rw [hphase] at hcall
      obtain ⟨hlt, hlive, hne⟩ := hcall
      exact ⟨hasked ▸ hlt, (hkept _ hne).trans hlive, fun held hh => hne held (hheld held hh)⟩
    | stored c ask | waiting ask =>
      rw [hphase] at hcall
      exact ⟨lt_of_lt_of_eq hcall.1 (congrArg List.length hasked.symm), hopen _ hcall.2⟩
    | idle | failed ask verdict | clearing c ask verdict => trivial

theorem SessionStep.held {c : ι} {op : SessionOp ι} (h : SessionStep ctx s c op t) {ask : Ask}
    (hask : t.Held ask) : s.Held ask := by
  cases h with
  | deliver tableId handId action hreading ht =>
    cases ht <;> simp only [Held, takeSlot, trySend] at * <;> grind
  | _ =>
    simp only [Held, putSlot, takeSlot, enter, trySend] at *
    grind

theorem SessionStep.channel_ne {c : ι} {op : SessionOp ι} (h : SessionStep ctx s c op t) {k : ℕ}
    (hk : t.channel k ≠ s.channel k) : ∃ ask, s.Held ask ∧ ask.call = k := by
  cases h with
  | deliver tableId handId action hreading ht =>
    cases ht <;> simp only [Held, takeSlot, trySend] at * <;> grind
  | _ =>
    simp only [Held, putSlot, takeSlot, enter, trySend] at *
    grind [dropSender_eq]

/-- A session closes no channel. -/
theorem SessionStep.channel_open {c : ι} {op : SessionOp ι} (h : SessionStep ctx s c op t)
    {k : ℕ} (hk : s.channel k ≠ .closed) : t.channel k ≠ .closed := by
  cases h with
  | deliver tableId handId action hreading ht =>
    cases ht <;> grind [takeSlot, trySend]
  | restore | leaveDrop | strayDrop | closeDrop => exact dropSender_open hk _
  | _ => exact hk

/-- What has settled stays as it is. -/
theorem SessionStep.channel_settled {c : ι} {op : SessionOp ι} (h : SessionStep ctx s c op t)
    {k : ℕ} (hk : s.channel k ≠ .live) : t.channel k = s.channel k := by
  cases h with
  | deliver tableId handId action hreading ht =>
    cases ht <;> grind [takeSlot, trySend]
  | restore | leaveDrop | strayDrop | closeDrop => exact dropSender_of_ne_live hk _
  | _ => rfl

/-- A session opens no channel. -/
theorem SessionStep.live_of_live {c : ι} {op : SessionOp ι} (h : SessionStep ctx s c op t)
    {k : ℕ} (hk : t.channel k = .live) : s.channel k = .live := by
  by_contra hne
  exact hne ((h.channel_settled hne).symm.trans hk)

theorem Numbered.sessionStep (h : s.Numbered) {c : ι} {op : SessionOp ι}
    (hstep : SessionStep ctx s c op t) : t.Numbered :=
  h.of_held hstep.agent_eq hstep.asked_eq (fun _ => hstep.held) (fun _ => hstep.channel_ne)
    fun _ => hstep.channel_open

theorem Numbered.step (h : s.Numbered) {op : SeatOp ι} (hstep : s.step ctx op = some t) :
    t.Numbered := by
  cases op with
  | agent op => exact h.agentStep (agentStep_cases hstep)
  | session c op => exact h.sessionStep (sessionStep_cases hstep)

end LiveSeat

end VibePoker.Server
