import VibePoker.Server.Numbering

/-!
# Answers and their prompts

A client names the table and the hand of the prompt that it answers, but not the prompt.
`deliver_action` matches the answer with the prompt that is in the slot by these two and
by the legality of the action, so that a duplicate or a late answer may meet a later
prompt of the same hand. The runs are exactly those in which every answer that finds a
matching prompt finds its own, still open.

## Main definitions

* `AnswerStep` — the sections, with the prompts that the submitted actions answer
* `Own` — an answer resolves its own prompt or nothing
* `Matches` — an answer finds no prompt but its own

## Main results

* `own_iff_matches` — which runs resolve prompts by their own answers only
* `duplicate_resolves_later` — a duplicate that resolves the next prompt
-/

namespace VibePoker.Server

open VibePoker.Core VibePoker.Game VibePoker.Net VibePoker.CS

namespace LiveSeat

variable {ι : Type*} [DecidableEq ι] {ctx : SeatContext} {c : ι} {s t : LiveSeat ι}

/-! ## The statement -/

omit [DecidableEq ι] in
/-- The prompt of call `k` was sent to connection `c`, and is for this table and hand. -/
def Asked (ctx : SeatContext) (s : LiveSeat ι) (c : ι) (k tableId handId : ℕ) : Prop :=
  ∃ p, s.asked[k]? = some p ∧ p.tableId = tableId ∧ p.handId = handId ∧
    p.prompt ctx.deadlineMs ∈ s.sent c

/-- A section. An action that is submitted answers the prompt of the call that the
label names, which the client was sent. -/
def AnswerStep (ctx : SeatContext) (s : LiveSeat ι) (label : SeatOp ι × ℕ) (t : LiveSeat ι) :
    Prop :=
  s.step ctx label.1 = some t ∧
    ∀ c tableId handId action, label.1 = .session c (.deliver tableId handId action) →
      Asked ctx s c label.2 tableId handId

/-- An answer resolves the prompt that it answers, or it is rejected and changes
nothing. -/
def Own (s : LiveSeat ι) (label : SeatOp ι × ℕ) (t : LiveSeat ι) : Prop :=
  ∀ c tableId handId action, label.1 = .session c (.deliver tableId handId action) →
    (s.channel label.2 = .live ∧
        t.channel = Function.update s.channel label.2 (.answered action)) ∨
      t = s.trySend c (.actionRejected "no matching pending action")

/-- A prompt in the slot that is for the table and the hand of an answer and allows its
action is the one that it answers, and the call still waits. -/
def Matches (s : LiveSeat ι) (label : SeatOp ι × ℕ) : Prop :=
  ∀ c tableId handId action, label.1 = .session c (.deliver tableId handId action) →
    ∀ ask, s.pending c = some ask → ask.prompt.tableId = tableId → ask.prompt.handId = handId →
      ask.prompt.legal.isLegal action = true → ask.call = label.2 ∧ s.channel ask.call = .live

def OwnStep (ctx : SeatContext) (s : LiveSeat ι) (label : SeatOp ι × ℕ) (t : LiveSeat ι) :
    Prop :=
  AnswerStep ctx s label t ∧ Own s label t

def MatchedStep (ctx : SeatContext) (s : LiveSeat ι) (label : SeatOp ι × ℕ)
    (t : LiveSeat ι) : Prop :=
  AnswerStep ctx s label t ∧ Matches s label

/-- The label submits `action` in answer to the prompt of call `k`. -/
def SubmitsTo (k : ℕ) (action : Action) (label : SeatOp ι × ℕ) : Prop :=
  label.2 = k ∧ ∃ c tableId handId, label.1 = .session c (.deliver tableId handId action)

/-! ## One section -/

theorem delivered_of_step {tableId handId : ℕ} {action : Action}
    (h : s.step ctx (.session c (.deliver tableId handId action)) = some t) :
    Delivered s c tableId handId action t := by
  have hstep : SessionStep ctx s c (.deliver tableId handId action) t := sessionStep_cases h
  cases hstep with
  | deliver _ _ _ _ ht => exact ht

/-- An answer resolves its own prompt or nothing exactly if it finds no other. -/
theorem own_iff {label : SeatOp ι × ℕ} (h : s.step ctx label.1 = some t) :
    Own s label t ↔ Matches s label := by
  constructor
  · intro hown c tableId handId action hlabel ask hask htable hhand hlegal
    have hown := hown c tableId handId action hlabel
    rw [hlabel] at h
    cases delivered_of_step h with
    | rejected hnone =>
      -- the prompt in the slot would have taken the action
      exact absurd (hnone ask hask htable hhand) (by simp [hlegal])
    | answers hask' _ _ _ hlive =>
      obtain rfl := Option.some.inj (hask.symm.trans hask')
      obtain ⟨hopen, heq⟩ | heq := hown
      · refine ⟨?_, hlive⟩
        by_contra hne
        have hk := congrFun heq label.2
        simp [Function.update_of_ne (Ne.symm hne), hopen] at hk
      · have hk := congrFun (congrArg LiveSeat.channel heq) ask.call
        simp [trySend, hlive] at hk
    | late hask' _ _ _ hgone =>
      obtain ⟨hopen, heq⟩ | heq := hown
      · have hk := congrFun heq label.2
        simp [takeSlot, trySend, hopen] at hk
      · have hslot := congrFun (congrArg LiveSeat.pending heq) c
        simp [takeSlot, trySend, hask] at hslot
  · intro hmatch c tableId handId action hlabel
    have hmatch := hmatch c tableId handId action hlabel
    rw [hlabel] at h
    cases delivered_of_step h with
    | rejected _ => exact Or.inr rfl
    | answers hask htable hhand hlegal _ =>
      obtain ⟨hcall, hlive⟩ := hmatch _ hask htable hhand hlegal
      exact Or.inl ⟨hcall ▸ hlive, hcall ▸ rfl⟩
    | late hask htable hhand hlegal hgone =>
      exact absurd (hmatch _ hask htable hhand hlegal).2 hgone

/-- A channel that is answered was answered before, or is answered by its own answer. -/
theorem answered_of_step {label : SeatOp ι × ℕ} (h : s.step ctx label.1 = some t)
    (hown : Own s label t) {k : ℕ} {action : Action} (hk : t.channel k = .answered action) :
    s.channel k = .answered action ∨ SubmitsTo k action label := by
  obtain ⟨op, j⟩ := label
  -- only a delivery puts an answer into a channel; what the agent does empties or drops one
  cases op with
  | agent op =>
    refine Or.inl ?_
    have hstep : AgentStep ctx s op t := agentStep_cases h
    cases hstep with
    | store | clear => exact channel_of_dropSender hk
    | expire =>
      simp only [Function.update_apply] at hk
      split at hk
      · cases hk
      · exact hk
    | resolve | fold | pass | send | receive | lose | resolveAgain => exact hk
  | session c op =>
    have hstep : SessionStep ctx s c op t := sessionStep_cases h
    cases op with
    | deliver tableId handId action' =>
      obtain ⟨-, heq⟩ | rfl := hown c tableId handId action' rfl
      · by_cases hj : j = k
        · subst hj
          rw [heq, Function.update_self] at hk
          obtain rfl := Channel.answered.inj hk
          exact Or.inr ⟨rfl, c, tableId, handId, rfl⟩
        · rw [heq, Function.update_of_ne (Ne.symm hj)] at hk
          exact Or.inl hk
      · exact Or.inl hk
    | _ =>
      refine Or.inl ?_
      cases hstep <;> first | exact hk | exact channel_of_dropSender hk

/-- A call that failed has no answer. -/
@[simp, grind =]
def Unanswered : AgentPhase ι → Prop
  | .failed _ verdict | .clearing _ _ verdict => ∀ action, verdict ≠ .answered action
  | .idle | .resolved _ _ | .checked _ _ | .stored _ _ | .waiting _ => True

theorem unanswered_step {op : SeatOp ι} (h : s.step ctx op = some t)
    (hcall : Unanswered s.agent) : Unanswered t.agent := by
  cases op with
  | agent op =>
    have hstep : AgentStep ctx s op t := agentStep_cases h
    cases hstep with
    | _ =>
      rw [‹s.agent = _›] at hcall
      simp_all [giveBack]
  | session c op =>
    have hstep : SessionStep ctx s c op t := sessionStep_cases h
    rw [hstep.agent_eq]
    exact hcall

/-- An answer that a call returns came through its channel. -/
theorem channel_of_returned {op : SeatOp ι} (h : s.step ctx op = some t)
    (hcall : Unanswered s.agent) {k : ℕ} {action : Action}
    (hk : (k, .answered action) ∈ t.returned) :
    (k, .answered action) ∈ s.returned ∨ s.channel k = .answered action := by
  cases op with
  | agent op =>
    have hstep : AgentStep ctx s op t := agentStep_cases h
    cases hstep with
    | _ =>
      rw [‹s.agent = _›] at hcall
      simp only [putSlot, giveBack, trySend] at hk
      grind
  | session c op =>
    have hstep : SessionStep ctx s c op t := sessionStep_cases h
    exact Or.inl (hstep.returned_eq ▸ hk)

/-! ## A whole run -/

/-- What a call returns as an answer was submitted in answer to its own prompt. -/
theorem answered_by_own {labels : List (SeatOp ι × ℕ)}
    (hrun : Trace (OwnStep ctx) s labels t)
    (hcall : Unanswered s.agent) {k : ℕ} {action : Action}
    (hk : (k, .answered action) ∈ t.returned ∨ t.channel k = .answered action) :
    ((k, .answered action) ∈ s.returned ∨ s.channel k = .answered action) ∨
      ∃ label ∈ labels, SubmitsTo k action label := by
  induction hrun with
  | nil => exact Or.inl hk
  | cons head _ ih =>
    obtain ⟨⟨hstep, -⟩, hown⟩ := head
    obtain (hreturned | hchannel) | ⟨label, hmem, hsubmits⟩ := ih (unanswered_step hstep hcall) hk
    · exact Or.inl (channel_of_returned hstep hcall hreturned)
    · obtain hbefore | hsubmits := answered_of_step hstep hown hchannel
      · exact Or.inl (Or.inr hbefore)
      · exact Or.inr ⟨_, List.mem_cons_self, hsubmits⟩
    · exact Or.inr ⟨label, List.mem_cons_of_mem _ hmem, hsubmits⟩

/-- A run resolves prompts by their own answers only, and rejects the others without a
change, exactly if every answer that finds a matching prompt finds its own, still open.
Every answer that a call returns was then submitted in answer to its own prompt. -/
theorem own_iff_matches (ctx : SeatContext) (c : ι) (labels : List (SeatOp ι × ℕ))
    (s : LiveSeat ι) :
    (Trace (OwnStep ctx) (start c) labels s ↔ Trace (MatchedStep ctx) (start c) labels s) ∧
      (Trace (MatchedStep ctx) (start c) labels s → ∀ k action,
        (k, .answered action) ∈ s.returned → ∃ label ∈ labels, SubmitsTo k action label) := by
  have hmatched : Trace (MatchedStep ctx) (start c) labels s →
      Trace (OwnStep ctx) (start c) labels s :=
    fun h => h.mono fun s label t hstep => ⟨hstep.1, (own_iff hstep.1.1).mpr hstep.2⟩
  refine ⟨⟨fun h => ?_, hmatched⟩, fun h k action hk => ?_⟩
  · exact h.mono fun s label t hstep => ⟨hstep.1, (own_iff hstep.1.1).mp hstep.2⟩
  · obtain (hreturned | hchannel) | hsubmitted :=
      answered_by_own (hmatched h) trivial (Or.inl hk)
    · exact absurd hreturned List.not_mem_nil
    · cases hchannel
    · exact hsubmitted

section Example

/-- Table 7 prompts the player at seat 0. -/
def atTableSeven : SeatContext := ⟨7, 0, [], 15000⟩

/-- A prompt with nothing to call; those of two streets of a hand look the same. -/
def nothingToCall : PendingAction := ⟨7, 1, 0, ⟨true, false, 0, true, 2, 100, 100⟩⟩

/-- The agent asks. -/
def promptsOnce : List (SeatOp ℕ × ℕ) :=
  [(.agent (.resolve nothingToCall), 0), (.agent .check, 0), (.agent .store, 0),
    (.agent .send, 0)]

/-- The client submits a check in answer to the first prompt. -/
def checksFirst : SeatOp ℕ × ℕ := (.session 0 (.deliver 7 1 .check), 0)

/-- Two prompts of a hand, and a duplicate of the answer to the first. -/
def checksTwice : List (SeatOp ℕ × ℕ) :=
  promptsOnce ++ [checksFirst, (.agent .receive, 0)] ++ promptsOnce ++
    [checksFirst, (.agent .receive, 0)]

/-- The duplicate resolves the second prompt. -/
theorem duplicate_resolves_later : ∃ s,
    Trace (AnswerStep atTableSeven) (start 0) checksTwice s ∧
      s.returned = [(0, .answered .check), (1, .answered .check)] ∧
      ¬ Trace (OwnStep atTableSeven) (start 0) checksTwice s := by
  refine ⟨_, .cons ⟨rfl, nofun⟩ <| .cons ⟨rfl, nofun⟩ <| .cons ⟨rfl, nofun⟩ <|
    .cons ⟨rfl, nofun⟩ <| .cons ⟨rfl, ?_⟩ <| .cons ⟨rfl, nofun⟩ <| .cons ⟨rfl, nofun⟩ <|
    .cons ⟨rfl, nofun⟩ <| .cons ⟨rfl, nofun⟩ <| .cons ⟨rfl, nofun⟩ <| .cons ⟨rfl, ?_⟩ <|
    .cons ⟨rfl, nofun⟩ <| .nil _, rfl, fun h => ?_⟩
  · rintro c tableId handId action ⟨⟩
    exact ⟨nothingToCall, rfl, rfl, rfl, List.mem_singleton_self _⟩
  · rintro c tableId handId action ⟨⟩
    exact ⟨nothingToCall, rfl, rfl, rfl, List.mem_cons_self⟩
  · -- nothing was submitted in answer to the second prompt
    have hsecond : (1, Verdict.answered .check) ∈
        [(0, Verdict.answered .check), (1, .answered .check)] := by simp
    obtain (hreturned | hchannel) | ⟨label, hmem, hcall, -⟩ :=
      answered_by_own h trivial (Or.inl hsecond)
    · cases hreturned
    · cases hchannel
    · have hfirst : ∀ label ∈ checksTwice, label.2 = 0 := by decide
      exact absurd ((hfirst label hmem).symm.trans hcall) (by decide)

end Example

end LiveSeat

end VibePoker.Server
