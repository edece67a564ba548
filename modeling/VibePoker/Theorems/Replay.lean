import VibePoker.CS.Trace
import VibePoker.Server.Replay

/-!
# Replays and the live stream

A client that asks for a replay should be able to start over from it: the replay holds
what the seat was sent of the hand before, and the live messages go on from there. The
buffer and the queue agree between two deliveries only. A snapshot that is taken within
a delivery, or put into the queue after a further one, repeats a message or leaves one
out.

## Main definitions

* `Fits` — the replay holds what was sent before it, and what follows is the rest
* `Request.Unsplit` — no delivery was cut by the snapshot and its sending

## Main results

* `replay_fits_iff` — the replays that fit
* `replay_repeats`, `replay_omits` — two that do not
-/

namespace VibePoker.Server

open VibePoker.Net VibePoker.CS

/-- A replay in the queue, with what was put there before and after it: it holds the
messages of its hand that were sent before, and those that follow are the rest. -/
structure Fits (before : List Queued) (r : Request) (after : List Queued) : Prop where
  inside : r.events = liveOf r.handId before
  remaining : r.events ++ liveOf r.handId after =
    liveOf r.handId (before ++ .replay r :: after)

/-- The snapshot was taken between deliveries and nothing of the hand was sent before the
replay, or it was taken between the recording and the sending of an event and just this
event was sent before the replay. -/
def Request.Unsplit (r : Request) : Prop :=
  match r.cut with
  | .whole => r.sends = 0
  | .pushed => r.sends = 1
  | .sent => False

/-! ## Messages of a hand -/

section Live

variable {h : ℕ} {queue queue' : List Queued}

@[simp] theorem liveOf_append : liveOf h (queue ++ queue') = liveOf h queue ++ liveOf h queue' :=
  List.filterMap_append

@[simp] theorem liveOf_live_self {msg : ServerMessage} : liveOf h [.live h msg] = [msg] := by
  simp [liveOf]

theorem liveOf_live_of_ne {hand : ℕ} {msg : ServerMessage} (hne : hand ≠ h) :
    liveOf h [.live hand msg] = [] := by
  simp [liveOf, hne]

@[simp] theorem liveOf_replay {r : Request} {after : List Queued} :
    liveOf h (.replay r :: after) = liveOf h after := rfl

@[simp] theorem liveOf_other {msg : ServerMessage} : liveOf h [.other msg] = [] := rfl

/-- The rest follows if the replay holds what was sent before. -/
theorem fits_iff {before after : List Queued} {r : Request} :
    Fits before r after ↔ r.events = liveOf r.handId before := by
  refine ⟨Fits.inside, fun hinside => ⟨hinside, ?_⟩⟩
  rw [liveOf_append, liveOf_replay, hinside]

end Live

/-! ## The buffer and the queue -/

/-- What the thread has recorded but not sent. -/
def Delivering.unsent : Delivering → List ServerMessage
  | .sending msg _ => [msg]
  | _ => []

/-- What the thread has sent but not recorded. -/
def Delivering.unrecorded : Delivering → List ServerMessage
  | .recording msg => [msg]
  | _ => []

/-- The thread is in a delivery of the hand that was begun. -/
def Delivering.inHand : Delivering → Bool
  | .idle | .beginning _ _ => false
  | _ => true

/-- What a request whose snapshot is taken holds of the messages `live` of its hand, while
the thread is at `thread` in hand `hand`. -/
def Request.Holds (r : Request) (live : List ServerMessage) (hand : ℕ) (thread : Delivering) :
    Prop :=
  match r.cut with
  | .whole => ∃ later, live = r.events ++ later ∧ later.length = r.sends
  | .pushed =>
    (r.sends = 0 ∧ hand = r.handId ∧ ∃ msg last, thread = .sending msg last ∧
      r.events = live ++ [msg]) ∨
    ∃ later, live = r.events ++ later ∧ later.length + 1 = r.sends
  | .sent => ∃ later, live = r.events ++ later ∧ later.length = r.sends + 1

namespace ReplaySeat

/-- The buffer of the running hand is what was sent of it, up to the message that is being
delivered. -/
structure Aligned (s : ReplaySeat) : Prop where
  handId_eq : ∀ h, s.link.replay.handId = some h → h = s.hand
  inHand : s.thread.inHand → s.link.replay.handId = some s.hand
  beginning : ∀ h msg, s.thread = .beginning h msg → s.hand < h
  events_eq : s.link.replay.handId = some s.hand →
    s.link.replay.events ++ s.thread.unrecorded = liveOf s.hand s.queue ++ s.thread.unsent
  later_eq : ∀ h, s.hand < h → liveOf h s.queue = []
  request : ∀ r, s.request = some r → r.handId ≤ s.hand ∧
    r.Holds (liveOf r.handId s.queue) s.hand s.thread
  replays : ∀ before r after, s.queue = before ++ .replay r :: after →
    (r.events = liveOf r.handId before ↔ r.Unsplit)

theorem aligned_new (c : Connection) (hand : ℕ) : (new c hand).Aligned where
  handId_eq := by simp [new, SeatLink.new]
  inHand := by simp [new, Delivering.inHand]
  beginning := by simp [new]
  events_eq := by simp [new, SeatLink.new]
  later_eq _ _ := rfl
  request := by simp [new]
  replays := by simp [new]

variable {s s' : ReplaySeat}

/-- Whether a replay fits is known when it is sent. -/
theorem holds_iff {r : Request} {live : List ServerMessage} {hand : ℕ} {thread : Delivering}
    (h : r.Holds live hand thread) :
    r.events = live ↔ r.Unsplit := by
  rw [Request.Holds] at h
  rw [Request.Unsplit]
  cases hcut : r.cut with
  | whole =>
    simp only [hcut] at h ⊢
    obtain ⟨later, rfl, hlength⟩ := h
    rw [← hlength, List.length_eq_zero_iff, List.self_eq_append_right]
  | pushed =>
    simp only [hcut] at h ⊢
    rcases h with ⟨hsends, -, msg, last, -, hevents⟩ | ⟨later, rfl, hlength⟩
    · rw [hevents, hsends]
      simp
    · rw [← hlength, List.self_eq_append_right, ← List.length_eq_zero_iff]
      omega
  | sent =>
    simp only [hcut] at h ⊢
    obtain ⟨later, rfl, hlength⟩ := h
    rw [List.self_eq_append_right, iff_false]
    rintro rfl
    cases hlength

/-- A replay in a queue that grew by one entry was there before, or is the new entry. -/
theorem replay_snoc {queue before after : List Queued} {q : Queued} {r : Request}
    (h : queue ++ [q] = before ++ .replay r :: after) :
    (q = .replay r ∧ before = queue) ∨ ∃ after', queue = before ++ .replay r :: after' := by
  rcases List.eq_nil_or_concat after with rfl | ⟨after', last, rfl⟩
  · left
    obtain ⟨hqueue, hq⟩ := List.append_inj' h rfl
    exact ⟨List.singleton_inj.mp hq, hqueue.symm⟩
  · right
    rw [List.concat_eq_append, ← List.cons_append, ← List.append_assoc] at h
    exact ⟨after', (List.append_inj' h rfl).1⟩

namespace Aligned

/-- Whatever is sent besides leaves the messages of the hands alone. -/
theorem enqueue_other (h : s.Aligned) (msg : ServerMessage) :
    (s.enqueue (.other msg)).Aligned where
  handId_eq := h.handId_eq
  inHand := h.inHand
  beginning := h.beginning
  events_eq hhand := by
    simpa [enqueue] using h.events_eq hhand
  later_eq hand hlater := by
    simpa [enqueue] using h.later_eq hand hlater
  request r hr := by
    obtain ⟨hle, hholds⟩ := h.request r hr
    exact ⟨hle, by simpa [enqueue] using hholds⟩
  replays before r after hqueue := by
    rcases replay_snoc hqueue with ⟨hq, -⟩ | ⟨after', hbefore⟩
    · cases hq
    · exact h.replays before r after' hbefore

theorem reply (h : s.Aligned) {r : Request} (hr : s.request = some r) :
    { s.enqueue (.replay r) with request := none : ReplaySeat }.Aligned where
  handId_eq := h.handId_eq
  inHand := h.inHand
  beginning := h.beginning
  events_eq hhand := by
    have hsame : liveOf s.hand [.replay r] = [] := rfl
    simpa [enqueue, hsame] using h.events_eq hhand
  later_eq hand hlater := by
    have hsame : liveOf hand [.replay r] = [] := rfl
    simpa [enqueue, hsame] using h.later_eq hand hlater
  request r' hr' := by cases hr'
  replays before r' after hqueue := by
    rcases replay_snoc hqueue with ⟨hq, rfl⟩ | ⟨after', hbefore⟩
    · obtain rfl := Queued.replay.inj hq
      exact holds_iff (h.request r hr).2
    · exact h.replays before r' after' hbefore

/-- The buffer that a snapshot copies is that of the last hand. -/
theorem snapshot (h : s.Aligned) {handId : ℕ} {events : List ServerMessage}
    (hsnapshot : s.link.replaySnapshot handId = some events) :
    { s with request := some ⟨handId, events, s.thread.cut, 0⟩ : ReplaySeat }.Aligned where
  handId_eq := h.handId_eq
  inHand := h.inHand
  beginning := h.beginning
  events_eq := h.events_eq
  later_eq := h.later_eq
  request r hr := by
    obtain rfl := Option.some.inj hr
    rw [SeatLink.replaySnapshot] at hsnapshot
    split at hsnapshot
    case isFalse => cases hsnapshot
    case isTrue hbuffer =>
      obtain rfl := Option.some.inj hsnapshot
      obtain rfl := h.handId_eq handId hbuffer
      have hevents := h.events_eq hbuffer
      refine ⟨le_rfl, ?_⟩
      -- what the snapshot lacks, or has too much, is the message in delivery
      cases hthread : s.thread with
      | sending msg last =>
        simp only [hthread, Delivering.unrecorded, Delivering.unsent, List.append_nil] at hevents
        exact Or.inl ⟨rfl, rfl, msg, last, rfl, hevents⟩
      | recording msg =>
        simp only [hthread, Delivering.unrecorded, Delivering.unsent, List.append_nil] at hevents
        exact ⟨[msg], hevents.symm, rfl⟩
      | _ =>
        simp only [hthread, Delivering.unrecorded, Delivering.unsent, List.append_nil] at hevents
        exact ⟨[], by rw [List.append_nil, hevents], rfl⟩
  replays := h.replays

/-- A request goes on holding what it held while nothing of its hand is sent, unless the
thread is about to send what its snapshot has already. -/
theorem holds_of_not_sending {r : Request} {live : List ServerMessage} {hand hand' : ℕ}
    {thread thread' : Delivering} (h : r.Holds live hand thread)
    (hnot : ∀ msg last, thread ≠ .sending msg last) : r.Holds live hand' thread' := by
  rw [Request.Holds] at h ⊢
  cases hcut : r.cut with
  | whole => simpa only [hcut] using h
  | pushed =>
    simp only [hcut] at h ⊢
    rcases h with ⟨-, -, msg, last, hthread, -⟩ | hlater
    · exact absurd hthread (hnot msg last)
    · exact Or.inr hlater
  | sent => simpa only [hcut] using h

theorem deliver (h : s.Aligned) (hidle : s.thread = .idle) {d : Delivery}
    (haccepts : s.accepts d) : { s with thread := d.start : ReplaySeat }.Aligned where
  handId_eq := h.handId_eq
  inHand hin := by
    cases d with
    | handStarted => cases hin
    | _ => exact haccepts
  beginning hand msg hthread := by
    cases d with
    | handStarted => cases hthread; exact haccepts
    | _ => cases hthread
  events_eq hhand := by
    have hevents := h.events_eq hhand
    rw [hidle] at hevents
    cases d <;> exact hevents
  later_eq := h.later_eq
  request r hr := by
    obtain ⟨hle, hholds⟩ := h.request r hr
    exact ⟨hle, holds_of_not_sending hholds (by simp [hidle])⟩
  replays := h.replays

/-! ### The thread -/

/-- The message that is sent next is what a request has too much, if anything. -/
theorem holds_send {r : Request} {live : List ServerMessage} {hand hand' : ℕ}
    {thread thread' : Delivering} {msg : ServerMessage} (h : r.Holds live hand thread)
    (hmsg : ∀ msg' last, thread = .sending msg' last → msg' = msg) :
    { r with sends := r.sends + 1 }.Holds (live ++ [msg]) hand' thread' := by
  have hlonger : ∀ {events later : List ServerMessage}, live = events ++ later →
      live ++ [msg] = events ++ (later ++ [msg]) := by
    rintro events later rfl
    exact List.append_assoc _ _ _
  rw [Request.Holds] at h ⊢
  dsimp only
  cases hcut : r.cut with
  | whole =>
    simp only [hcut] at h ⊢
    obtain ⟨later, hlive, hlength⟩ := h
    exact ⟨later ++ [msg], hlonger hlive, by simp [hlength]⟩
  | pushed =>
    simp only [hcut] at h ⊢
    right
    rcases h with ⟨hsends, -, msg', last, hthread, hevents⟩ | ⟨later, hlive, hlength⟩
    · refine ⟨[], ?_, by simp [hsends]⟩
      rw [hevents, hmsg msg' last hthread, List.append_nil]
    · exact ⟨later ++ [msg], hlonger hlive, by simp [hlength]⟩
  | sent =>
    simp only [hcut] at h ⊢
    obtain ⟨later, hlive, hlength⟩ := h
    exact ⟨later ++ [msg], hlonger hlive, by simp [hlength]⟩

theorem send (h : s.Aligned) {msg : ServerMessage} {thread' : Delivering}
    (hin : s.link.replay.handId = some s.hand)
    (hmsg : ∀ msg' last, s.thread = .sending msg' last → msg' = msg)
    (hbeginning : ∀ hand msg', thread' ≠ .beginning hand msg')
    (hevents : s.link.replay.events ++ thread'.unrecorded =
      liveOf s.hand s.queue ++ [msg] ++ thread'.unsent) :
    { s.sendLive msg with thread := thread' : ReplaySeat }.Aligned where
  handId_eq := h.handId_eq
  inHand _ := hin
  beginning hand msg' hthread := absurd hthread (hbeginning hand msg')
  events_eq _ := by
    simpa [sendLive, enqueue] using hevents
  later_eq hand hlater := by
    have hother : liveOf hand [.live s.hand msg] = [] := liveOf_live_of_ne (Nat.ne_of_lt hlater)
    simpa [sendLive, enqueue, hother] using h.later_eq hand hlater
  request r hr := by
    obtain ⟨r₀, hr₀, rfl⟩ := Option.map_eq_some_iff.mp hr
    obtain ⟨hle, hholds⟩ := h.request r₀ hr₀
    by_cases hhand : r₀.handId = s.hand
    · rw [if_pos hhand]
      refine ⟨hle, ?_⟩
      have hsent : { r₀ with sends := r₀.sends + 1 }.Holds (liveOf r₀.handId s.queue ++ [msg])
          s.hand thread' := holds_send hholds hmsg
      simpa [sendLive, enqueue, hhand] using hsent
    · -- the message is of a later hand
      rw [if_neg hhand]
      refine ⟨hle, ?_⟩
      have hother : liveOf r₀.handId [.live s.hand msg] = [] :=
        liveOf_live_of_ne (Ne.symm hhand)
      rw [Request.Holds] at hholds ⊢
      simp only [sendLive, enqueue, liveOf_append, hother, List.append_nil]
      cases hcut : r₀.cut with
      | whole => simpa only [hcut] using hholds
      | pushed =>
        simp only [hcut] at hholds ⊢
        rcases hholds with ⟨-, hsame, -⟩ | hlater
        · exact absurd hsame.symm hhand
        · exact Or.inr hlater
      | sent => simpa only [hcut] using hholds
  replays before r after hqueue := by
    rcases replay_snoc hqueue with ⟨hq, -⟩ | ⟨after', hbefore⟩
    · cases hq
    · exact h.replays before r after' hbefore

theorem push (h : s.Aligned) {msg : ServerMessage} {thread' : Delivering}
    (hin : s.link.replay.handId = some s.hand) (hnot : ∀ msg' last, s.thread ≠ .sending msg' last)
    (hbeginning : ∀ hand msg', thread' ≠ .beginning hand msg')
    (hevents : s.link.replay.events ++ [msg] ++ thread'.unrecorded =
      liveOf s.hand s.queue ++ thread'.unsent) :
    { s with link := s.link.replayPush msg, thread := thread' : ReplaySeat }.Aligned := by
  have hpush : s.link.replayPush msg =
      ⟨s.link.current, ⟨some s.hand, s.link.replay.events ++ [msg]⟩⟩ := by
    simp [SeatLink.replayPush, hin]
  constructor
  case handId_eq =>
    intro hand hhand
    rw [hpush] at hhand
    exact (Option.some.inj hhand).symm
  case inHand =>
    intro _
    rw [hpush]
  case beginning => exact fun hand msg' hthread => absurd hthread (hbeginning hand msg')
  case events_eq =>
    intro _
    rw [hpush]
    exact hevents
  case later_eq => exact h.later_eq
  case request =>
    intro r hr
    obtain ⟨hle, hholds⟩ := h.request r hr
    exact ⟨hle, holds_of_not_sending hholds hnot⟩
  case replays => exact h.replays

theorem begun (h : s.Aligned) {handId : ℕ} {msg : ServerMessage}
    (hthread : s.thread = .beginning handId msg) :
    { s with
      link := s.link.replayBegin handId
      hand := handId
      thread := .pushing msg false : ReplaySeat }.Aligned where
  handId_eq hand hhand := (Option.some.inj hhand).symm
  inHand _ := rfl
  beginning := by simp
  events_eq _ := by
    have hlater := h.later_eq handId (h.beginning _ _ hthread)
    simp [SeatLink.replayBegin, Delivering.unrecorded, Delivering.unsent, hlater]
  later_eq hand hlater := h.later_eq hand ((h.beginning _ _ hthread).trans hlater)
  request r hr := by
    obtain ⟨hle, hholds⟩ := h.request r hr
    exact ⟨hle.trans (h.beginning _ _ hthread).le, holds_of_not_sending hholds (by simp [hthread])⟩
  replays := h.replays

theorem sealed (h : s.Aligned) (hthread : s.thread = .sealing) :
    { s with link := s.link.replayEnd, thread := .idle : ReplaySeat }.Aligned where
  handId_eq hand hhand := by cases hhand
  inHand hin := by cases hin
  beginning := by simp
  events_eq hhand := by cases hhand
  later_eq := h.later_eq
  request r hr := by
    obtain ⟨hle, hholds⟩ := h.request r hr
    exact ⟨hle, holds_of_not_sending hholds (by simp [hthread])⟩
  replays := h.replays

theorem runThread (h : s.Aligned) (hrun : s.runThread = some s') : s'.Aligned := by
  rw [ReplaySeat.runThread] at hrun
  have hin := h.inHand
  have hevents := h.events_eq
  split at hrun
  case h_1 => cases hrun
  case h_2 handId msg hthread =>
    obtain rfl := Option.some.inj hrun
    exact h.begun hthread
  case h_3 msg last hthread =>
    obtain rfl := Option.some.inj hrun
    have hhand := hin (by rw [hthread]; rfl)
    have hevents := hevents hhand
    rw [hthread] at hevents
    refine h.push hhand (by simp [hthread]) (by simp) ?_
    simpa [Delivering.unsent, Delivering.unrecorded] using hevents
  case h_4 msg last hthread =>
    obtain rfl := Option.some.inj hrun
    have hhand := hin (by rw [hthread]; rfl)
    have hevents := hevents hhand
    rw [hthread] at hevents
    refine h.send hhand ?_ (by split <;> simp) ?_
    · intro msg' last' hsame
      rw [hthread] at hsame
      exact (Delivering.sending.inj hsame).1.symm
    · simp only [Delivering.unsent, Delivering.unrecorded, List.append_nil] at hevents
      rw [hevents]
      split <;> simp [Delivering.unsent, Delivering.unrecorded]
  case h_5 msg hthread =>
    obtain rfl := Option.some.inj hrun
    have hhand := hin (by rw [hthread]; rfl)
    have hevents := hevents hhand
    rw [hthread] at hevents
    refine h.send hhand (by simp [hthread]) (by simp) ?_
    simpa [Delivering.unsent, Delivering.unrecorded] using hevents
  case h_6 msg hthread =>
    obtain rfl := Option.some.inj hrun
    have hhand := hin (by rw [hthread]; rfl)
    have hevents := hevents hhand
    rw [hthread] at hevents
    refine h.push hhand (by simp [hthread]) (by simp) ?_
    simpa [Delivering.unsent, Delivering.unrecorded] using hevents
  case h_7 hthread =>
    obtain rfl := Option.some.inj hrun
    exact h.sealed hthread

theorem step (h : s.Aligned) {label : ReplayStep} (hstep : s.step label = some s') :
    s'.Aligned := by
  cases label with
  | deliver d =>
    rw [ReplaySeat.step] at hstep
    split at hstep
    case h_1 hidle =>
      split at hstep
      · obtain rfl := Option.some.inj hstep
        exact h.deliver hidle ‹_›
      · cases hstep
    case h_2 => cases hstep
  | thread => exact h.runThread hstep
  | snapshot handId =>
    rw [ReplaySeat.step] at hstep
    split at hstep
    · cases hstep
    · split at hstep
      · obtain rfl := Option.some.inj hstep
        exact h
      · obtain rfl := Option.some.inj hstep
        exact h.snapshot ‹_›
  | reply =>
    rw [ReplaySeat.step] at hstep
    split at hstep
    · cases hstep
    · obtain rfl := Option.some.inj hstep
      exact h.reply ‹_›
  | other msg =>
    obtain rfl := Option.some.inj hstep
    exact h.enqueue_other msg

end Aligned

/-! ## All interleavings -/

/-- Of a seat and its connection, from the start and for every interleaving: a replay
fits the live stream exactly if its snapshot and its sending cut no delivery. -/
theorem replay_fits_iff {c : Connection} {hand : ℕ} {steps : List ReplayStep}
    (h : Trace (fun s label s' => s.step label = some s') (new c hand) steps s)
    {before after : List Queued} {r : Request} (hqueue : s.queue = before ++ .replay r :: after) :
    Fits before r after ↔ r.Unsplit := by
  have haligned : s.Aligned :=
    h.invariant Aligned (fun _ _ _ hs hstep => hs.step hstep) (aligned_new c hand)
  rw [fits_iff]
  exact haligned.replays before r after hqueue

/-! ## Three requests in one hand -/

/-- The first event of hand 1. -/
def opening : ServerMessage := .tableEvent 1 (.handStarted 1 0 7)

/-- A further event. -/
def folding : ServerMessage := .tableEvent 1 (.actionTaken 0 .fold 3)

/-- A prompt of hand 1. -/
def asked : ServerMessage := .prompt 1 1 0 ⟨true, false, 0, true, 4, 100, 100⟩ 5000

/-- A seat in hand 1 that was sent the first event, and the steps that follow. -/
def inHandOne (steps : List ReplayStep) : Option ReplaySeat :=
  List.foldlM step (new (.new 1 "alice" 1) 0)
    (.deliver (.handStarted 1 opening) :: .thread :: .thread :: .thread :: steps)

/-- Between two deliveries, a replay fits. -/
theorem replay_fits_between : ∃ s before r after,
    inHandOne [.snapshot 1, .reply, .deliver (.event folding), .thread, .thread] = some s ∧
      s.queue = before ++ .replay r :: after ∧ Fits before r after := by
  obtain ⟨s, hs, hqueue⟩ : ∃ s, inHandOne [.snapshot 1, .reply, .deliver (.event folding),
      .thread, .thread] = some s ∧
        s.queue = [.live 1 opening] ++ .replay ⟨1, [opening], .whole, 0⟩ :: [.live 1 folding] :=
    ⟨_, rfl, rfl⟩
  exact ⟨s, _, _, _, hs, hqueue, (replay_fits_iff (Trace.of_foldlM hs) hqueue).mpr rfl⟩

/-- A snapshot between the recording and the sending of an event that is put into the queue
at once: the event is in the replay, and is sent again after it. -/
theorem replay_repeats : ∃ s before r after,
    inHandOne [.deliver (.event folding), .thread, .snapshot 1, .reply, .thread] = some s ∧
      s.queue = before ++ .replay r :: after ∧ folding ∈ r.events ∧
        folding ∈ liveOf r.handId after ∧ ¬ Fits before r after := by
  refine ⟨_, [.live 1 opening], ⟨1, [opening, folding], .pushed, 0⟩, [.live 1 folding], rfl, rfl,
    by simp, by simp, fun hfits => ?_⟩
  have hlength := congrArg List.length hfits.inside
  cases hlength

/-- A snapshot between the sending and the recording of a prompt: the prompt was sent
before the replay, and is not in it. -/
theorem replay_omits : ∃ s before r after,
    inHandOne [.deliver (.prompt asked), .thread, .snapshot 1, .reply, .thread] = some s ∧
      s.queue = before ++ .replay r :: after ∧ asked ∈ liveOf r.handId before ∧
        asked ∉ r.events ∧ ¬ Fits before r after := by
  refine ⟨_, [.live 1 opening, .live 1 asked], ⟨1, [opening], .sent, 0⟩, [], rfl, rfl,
    ?_, ?_, fun hfits => ?_⟩
  · simp [liveOf]
  · simp [asked, opening]
  · have hlength := congrArg List.length hfits.inside
    cases hlength

end ReplaySeat

end VibePoker.Server
