import VibePoker.CS.Trace
import VibePoker.Client.Dialogue

/-!
# Awaiting the player

The hand in flight is to await the player exactly while its last prompt is neither
answered nor overtaken. The client keeps to this as long as its own action does not come
while it awaits the player (a timeout), no rejection comes after an answer, no replay
shows a prompt again that does not stand any more, and the seat's hand starts and ends
while the client is at the table.

## Main definitions

* `Served` — what a replay holds
* `Expected` — the inputs that the client is prepared for

## Main results

* `awaitsPrompt_of_trace`
-/

namespace VibePoker.Client

open VibePoker.CS VibePoker.Game VibePoker.Net

/-! ## Inputs -/

/-- What follows the start of a hand in its replay buffer. -/
inductive OfHand (tableId handId : ℕ) : ServerMessage → Prop
  | event (ev : EngineEvent) (started : ∀ handId dealer deckSeed,
      ev ≠ .handStarted handId dealer deckSeed) : OfHand tableId handId (.tableEvent tableId ev)
  | prompt (seat : ℕ) (legal : LegalActions) (deadlineMs : ℕ) :
    OfHand tableId handId (.prompt tableId handId seat legal deadlineMs)

/-- A server replays the messages of the seat's hand, from its start. -/
def Served (d : Dialogue) : Input → Prop
  | .message (.replayEvents handId events) => ∃ tableId seat dealer deckSeed rest,
      d.seat = some (tableId, seat) ∧
      events = .tableEvent tableId (.handStarted handId dealer deckSeed) :: rest ∧
      ∀ msg ∈ rest, OfHand tableId handId msg
  | _ => True

/-- The player's table, as the client sees it, is the one that the server seated it at. -/
def atTable (core : ClientCore) (d : Dialogue) : Bool :=
  d.seat.any fun (tableId, _) => core.view.isSeatedAt tableId

/-- A replay shows the last prompt of the hand if that stands, and none if none does; a
client that is not at the table has no hand to show. -/
def ReplayExpected (core : ClientCore) (d : Dialogue) (events : List ServerMessage) : Prop :=
  if atTable core d then
    (d.heard events).hand = none ∨
      (d.replayed events).stands = decide (0 < (d.heard events).prompts) ∧
        ((d.replayed events).stands = true → (d.replayed events).last = (d.heard events).last)
  else core.view.currentHand = none

/-- The client is prepared for the input. -/
def Expected (core : ClientCore) (d : Dialogue) (ofAnswer : Bool) : Input → Prop
  | .message (.tableEvent tableId ev) =>
    match ev with
    -- the player acts while it is awaited
    | .actionTaken actor _ _ => d.seat = some (tableId, actor) → core.stillAwaiting = false
    -- a hand starts or ends behind the client's back
    | .handStarted _ _ _ | .handEnded _ _ => (∃ seat, d.seat = some (tableId, seat)) →
        core.view.isSeatedAt tableId = true ∨ core.stillAwaiting = false
    | _ => True
  -- a prompt of another hand than the one that is shown
  | .message (.prompt _ handId _ _ _) => ∀ hand, core.view.currentHand = some hand →
      hand.handId = handId ∧ d.hand = some handId
  -- a rejection that shows a prompt again
  | .message (.actionRejected _) => core.view.currentHand = none ∨ core.stillAwaiting = true ∨
      core.activePrompt = none ∧ ofAnswer = false
  -- a replay that shows a prompt that does not stand, or hides one that does
  | .message (.replayEvents _ events) => ReplayExpected core d events
  | _ => True

/-! ## Steps -/

/-- What the client shows follows the dialogue. -/
structure Tracked (core : ClientCore) (d : Dialogue) : Prop where
  shows : ∀ hand, core.view.currentHand = some hand → HandShows core hand d.last d.stands
  seated : ∀ tableId seat, core.view.phase = .seated tableId seat → d.seat = some (tableId, seat)

namespace Tracked

variable {core core' : ClientCore} {d d' : Dialogue}

theorem awaitsPrompt (h : Tracked core d) : AwaitsPrompt core d where
  awaiting hand hhand := by rw [(h.shows hand hhand).awaiting]
  shown hand hhand hawaits := by
    have hshows := h.shows hand hhand
    rw [hshows.awaiting] at hawaits
    obtain ⟨prompt, hlast, hlegal, hdeadline, hid, -⟩ := hshows.shown hawaits
    exact ⟨prompt, hlast, hlegal, hdeadline, hid⟩

theorem stands_of_awaiting (h : Tracked core d) {hand : CurrentHand}
    (hhand : core.view.currentHand = some hand) : core.stillAwaiting = d.stands := by
  rw [ClientCore.stillAwaiting, hhand]
  exact (h.shows hand hhand).awaiting

/-- Without a hand in flight there is nothing to show. -/
theorem of_none (hhand : core'.view.currentHand = none)
    (hseated : ∀ tableId seat, core'.view.phase = .seated tableId seat →
      d'.seat = some (tableId, seat)) : Tracked core' d' where
  shows hand hsome := by
    rw [hhand] at hsome
    cases hsome
  seated := hseated

/-- Neither the hand nor its prompts change, and the client stays at its table or leaves it. -/
theorem frame (h : Tracked core d) (hhand : core'.view.currentHand = core.view.currentHand)
    (hprompt : core'.activePrompt = core.activePrompt)
    (hphase : ∀ tableId seat, core'.view.phase = .seated tableId seat →
      core.view.phase = .seated tableId seat) : Tracked core' d where
  shows hand hsome := (h.shows hand (hhand.symm.trans hsome)).congr hprompt
  seated tableId seat hat := h.seated tableId seat (hphase tableId seat hat)

/-- A quiet change of the hand. -/
theorem quiet (h : Tracked core d) {f : CurrentHand → CurrentHand} (hf : Quiet f) :
    Tracked { core with view := core.view.updateHand f } d where
  shows hand hsome := by
    obtain ⟨hand, hhand, rfl⟩ := Option.map_eq_some_iff.mp hsome
    exact ((h.shows hand hhand).quiet hf).congr rfl
  seated := h.seated

/-- The last prompt stands no more, and is not shown any more. -/
theorem settle (h : Tracked core d) (hquiet : core.stillAwaiting = false)
    (hstands : d'.stands = false) (hseat : d'.seat = d.seat) : Tracked core d' where
  shows hand hhand := by
    rw [hstands]
    refine HandShows.of_false ?_
    rw [(h.shows hand hhand).awaiting, ← h.stands_of_awaiting hhand, hquiet]
  seated tableId seat hat := hseat.trans (h.seated tableId seat hat)

/-! ## Events -/

/-- An event leaves the dialogue alone, or ends a prompt that the client is then to have
put away, unless the client follows the event itself. -/
theorem event_cases {ofAnswer : Bool} {tableId : ℕ} {ev : EngineEvent}
    (hexpected : Expected core d ofAnswer (.message (.tableEvent tableId ev))) :
    d.event tableId ev = d ∨ (d.event tableId ev).stands = false ∧
      (d.event tableId ev).seat = d.seat ∧
      (core.stillAwaiting = false ∨ bounds ev = true ∧ core.view.isSeatedAt tableId = true) := by
  cases hseat : d.seat with
  | none =>
    refine Or.inl ?_
    rw [Dialogue.event, hseat]
  | some at_ =>
    obtain ⟨table, seat⟩ := at_
    by_cases htable : table = tableId
    · subst htable
      unfold Dialogue.event
      simp only [hseat, if_true]
      cases ev with
      | handStarted | handEnded =>
        refine Or.inr ⟨rfl, hseat, ?_⟩
        exact (hexpected ⟨seat, hseat⟩).symm.imp id fun hat => ⟨rfl, hat⟩
      | actionTaken actor action potTotal =>
        dsimp only
        split
        · rename_i hactor
          subst hactor
          refine Or.inr ⟨?_, rfl, Or.inl (hexpected hseat)⟩
          simp [Dialogue.stands]
        · exact Or.inl rfl
      | holeCardsDealt | boardDealt | playerAllIn => exact Or.inl rfl
    · refine Or.inl ?_
      simp only [Dialogue.event, hseat, if_neg htable]

theorem phase_of_isSeatedAt {tableId : ℕ} (h : core.view.isSeatedAt tableId = true) :
    ∃ seat, core.view.phase = .seated tableId seat := by
  unfold ClientView.isSeatedAt at h
  split at h
  · rename_i table seat hphase
    rw [of_decide_eq_true h] at hphase
    exact ⟨seat, hphase⟩
  · cases h

theorem projectEngineEvent_of_not_seated {tableId : ℕ}
    (h : core.view.isSeatedAt tableId = false) (ev : EngineEvent) :
    core.projectEngineEvent tableId ev = core := by
  unfold ClientCore.projectEngineEvent
  rw [if_neg (by simp [h])]

theorem event (h : Tracked core d) {ofAnswer : Bool} {tableId : ℕ} {ev : EngineEvent}
    (hexpected : Expected core d ofAnswer (.message (.tableEvent tableId ev))) :
    Tracked (core.projectEngineEvent tableId ev) (d.event tableId ev) := by
  have hcases := event_cases hexpected
  cases hat : core.view.isSeatedAt tableId with
  | false =>
    rw [projectEngineEvent_of_not_seated hat]
    -- at another table the client ignores the event, and the dialogue has to as well
    rcases hcases with hsame | ⟨hstands, hseat, hquiet | ⟨-, hseated⟩⟩
    · rw [hsame]
      exact h
    · exact h.settle hquiet hstands hseat
    · cases hat.symm.trans hseated
  | true =>
    obtain ⟨seat, hphase⟩ := phase_of_isSeatedAt hat
    have hseat := h.seated tableId seat hphase
    cases hev : bounds ev with
    | true =>
      unfold ClientCore.projectEngineEvent Dialogue.event
      rw [if_pos hat, hseat]
      cases ev with
      | handStarted handId dealer deckSeed =>
        simp only [if_true]
        refine ⟨fun hand hhand => ?_, h.seated⟩
        cases hhand
        exact HandShows.of_false rfl
      | handEnded handId result =>
        simp only [if_true]
        exact of_none rfl h.seated
      | holeCardsDealt | boardDealt | actionTaken | playerAllIn => cases hev
    | false =>
      obtain ⟨f, hf, happly⟩ := projectEngineEvent_quiet tableId seat hev
      rw [happly core hphase]
      rcases hcases with hsame | ⟨hstands, hseat, hquiet | ⟨hbounds, -⟩⟩
      · rw [hsame]
        exact h.quiet hf
      · exact (h.quiet hf).settle ((stillAwaiting_updateHand hf core).trans hquiet) hstands hseat
      · cases hev.symm.trans hbounds

/-! ## Prompts and rejections -/

theorem prompt (h : Tracked core d) {ofAnswer : Bool} {tableId handId seat : ℕ}
    {legal : LegalActions} {deadlineMs : ℕ}
    (hexpected : Expected core d ofAnswer (.message (.prompt tableId handId seat legal deadlineMs))) :
    Tracked (ClientCore.handleInbound (.prompt tableId handId seat legal deadlineMs) core).1
      (d.message (.prompt tableId handId seat legal deadlineMs)) := by
  rw [handleInbound_prompt]
  constructor
  · intro hand hsome
    obtain ⟨hand, hhand, rfl⟩ := Option.map_eq_some_iff.mp hsome
    obtain ⟨hid, hcurrent⟩ := hexpected hand hhand
    simp only [Dialogue.message, if_pos hcurrent]
    exact HandShows.prompted legal deadlineMs hid rfl rfl
  · intro table seat' hphase
    have hseat : (d.message (.prompt tableId handId seat legal deadlineMs)).seat = d.seat := by
      simp only [Dialogue.message]
      split <;> rfl
    exact hseat.trans (h.seated table seat' hphase)

theorem actionRejected (h : Tracked core d) {ofAnswer : Bool} {reason : String}
    (hexpected : Expected core d ofAnswer (.message (.actionRejected reason))) :
    Tracked (ClientCore.handleInbound (.actionRejected reason) core).1 (d.rejected ofAnswer) := by
  have hseat : (d.rejected ofAnswer).seat = d.seat := by
    unfold Dialogue.rejected
    split <;> rfl
  rw [ClientCore.handleInbound]
  cases hactive : core.activePrompt with
  | none =>
    -- there is nothing to show again
    simp only
    rcases hexpected with hnone | hawaits | ⟨-, hother⟩
    · exact of_none hnone fun table seat hphase => hseat.trans (h.seated table seat hphase)
    · obtain ⟨hand, hhand⟩ := Option.isSome_iff_exists.mp (isSome_of_stillAwaiting hawaits)
      have hshows := h.shows hand hhand
      rw [← h.stands_of_awaiting hhand, hawaits] at hshows
      obtain ⟨-, -, -, -, -, active, hsome, -⟩ := hshows.shown rfl
      cases hactive.symm.trans hsome
    · rw [hother, Dialogue.rejected, if_neg (by simp)]
      exact h.frame rfl hactive.symm fun _ _ => id
  | some active =>
    simp only
    rcases hexpected with hnone | hawaits | ⟨hnone, -⟩
    · refine of_none ?_ fun table seat hphase => hseat.trans (h.seated table seat hphase)
      simp [hnone]
    · -- the prompt is shown already
      have hstands : ∀ hand, core.view.currentHand = some hand → d.stands = true :=
        fun hand hhand => (h.stands_of_awaiting hhand).symm.trans hawaits
      refine ⟨fun hand hsome => ?_, fun table seat hphase => hseat.trans (h.seated table seat hphase)⟩
      obtain ⟨hand, hhand, rfl⟩ := Option.map_eq_some_iff.mp hsome
      have hshows := h.shows hand hhand
      have hsame : d.rejected ofAnswer = d := by
        have := hstands hand hhand
        simp only [Dialogue.stands, Bool.and_eq_true, decide_eq_true_eq] at this
        rw [Dialogue.rejected, if_neg (by simp [this.2])]
      rw [hsame, hstands hand hhand] at *
      obtain ⟨prompt, hlast, hlegal, hdeadline, hid, active', hactive', hsame'⟩ := hshows.shown rfl
      cases hactive.symm.trans hactive'
      refine ⟨rfl, fun _ => ⟨prompt, hlast, ?_, hdeadline, hid, active, rfl, hsame'⟩⟩
      exact congrArg some hsame'
    · cases hactive.symm.trans hnone

end Tracked

/-! ## Replays -/

/-- While the messages of a hand are replayed, what the client shows is the last prompt. -/
structure Rehearsed (tableId seat handId : ℕ) (core : ClientCore) (d : Dialogue) : Prop where
  phase : core.view.phase = .seated tableId seat
  seat : d.seat = some (tableId, seat)
  hand : d.hand = some handId ∨ d.hand = none
  sameHand : core.view.currentHand.map CurrentHand.handId = d.hand
  shows : ∀ hand, core.view.currentHand = some hand →
    HandShows core hand d.last (decide (0 < d.prompts))

namespace Rehearsed

variable {tableId seat handId : ℕ} {core : ClientCore} {d : Dialogue}

/-- The start of the hand. -/
theorem start (hphase : core.view.phase = .seated tableId seat)
    (hseat : d.seat = some (tableId, seat)) (handId dealer deckSeed : ℕ) :
    Rehearsed tableId seat handId
      (core.projectEngineEvent tableId (.handStarted handId dealer deckSeed))
      (d.event tableId (.handStarted handId dealer deckSeed)) := by
  have hevent : d.event tableId (.handStarted handId dealer deckSeed) = d.begin (some handId) := by
    simp only [Dialogue.event, hseat, if_true]
  rw [hevent, ClientCore.projectEngineEvent, if_pos (isSeatedAt_of_phase hphase)]
  refine ⟨hphase, hseat, Or.inl rfl, rfl, fun hand hhand => ?_⟩
  cases hhand
  exact HandShows.of_false rfl

/-- Any other message of the hand. -/
theorem message (h : Rehearsed tableId seat handId core d) {msg : ServerMessage}
    (hmsg : OfHand tableId handId msg) :
    Rehearsed tableId seat handId (ClientCore.handleInbound msg core).1 (d.message msg) := by
  cases hmsg with
  | event ev hstarted =>
    rw [handleInbound_event, Dialogue.message]
    cases hev : bounds ev with
    | true =>
      cases ev with
      | handStarted handId dealer deckSeed => exact absurd rfl (hstarted handId dealer deckSeed)
      | handEnded endedId result =>
        simp only [Dialogue.event, h.seat, if_true]
        rw [ClientCore.projectEngineEvent, if_pos (isSeatedAt_of_phase h.phase)]
        exact ⟨h.phase, h.seat, Or.inr rfl, rfl, fun _ hsome => by cases hsome⟩
      | holeCardsDealt | boardDealt | actionTaken | playerAllIn => cases hev
    | false =>
      obtain ⟨f, hf, happly⟩ := projectEngineEvent_quiet tableId seat hev
      have hsame : (d.event tableId ev).seat = d.seat ∧ (d.event tableId ev).hand = d.hand ∧
          (d.event tableId ev).last = d.last ∧ (d.event tableId ev).prompts = d.prompts := by
        simp only [Dialogue.event, h.seat, if_true]
        cases ev with
        | handStarted | handEnded => cases hev
        | actionTaken =>
          dsimp only
          split <;> exact ⟨h.seat.symm ▸ rfl, rfl, rfl, rfl⟩
        | holeCardsDealt | boardDealt | playerAllIn => exact ⟨h.seat, rfl, rfl, rfl⟩
      obtain ⟨hseat, hhand, hlast, hprompts⟩ := hsame
      rw [happly core h.phase]
      refine ⟨h.phase, hseat.trans h.seat, ?_, ?_, fun hand hsome => ?_⟩
      · rw [hhand]
        exact h.hand
      · rw [hhand, ← h.sameHand, ClientView.updateHand_currentHand, Option.map_map]
        congr 1
        funext hand
        exact hf.handId hand
      · obtain ⟨hand, hcurrent, rfl⟩ := Option.map_eq_some_iff.mp hsome
        rw [hlast, hprompts]
        exact ((h.shows hand hcurrent).quiet hf).congr rfl
  | prompt promptSeat legal deadlineMs =>
    rw [handleInbound_prompt]
    rcases h.hand with hsome | hnone
    · simp only [Dialogue.message, if_pos hsome]
      refine ⟨h.phase, h.seat, Or.inl hsome, ?_, fun hand hshown => ?_⟩
      · rw [← h.sameHand, ClientView.updateHand_currentHand, Option.map_map]
        rfl
      · obtain ⟨hand, hcurrent, rfl⟩ := Option.map_eq_some_iff.mp hshown
        have hid := h.sameHand
        rw [hcurrent, hsome] at hid
        rw [decide_eq_true (Nat.succ_pos d.prompts)]
        exact HandShows.prompted legal deadlineMs (Option.some.inj hid) rfl rfl
    · -- the hand is over
      have hcurrent : core.view.currentHand = none := by
        rw [← Option.map_eq_none_iff, h.sameHand, hnone]
      simp only [Dialogue.message, hnone, reduceCtorEq, if_false]
      refine ⟨h.phase, h.seat, Or.inr hnone, ?_, fun hand hsome => ?_⟩
      · simp [hcurrent, hnone]
      · simp [hcurrent] at hsome

theorem receive (h : Rehearsed tableId seat handId core d) {msgs : List ServerMessage}
    (hmsgs : ∀ msg ∈ msgs, OfHand tableId handId msg) :
    Rehearsed tableId seat handId (core.receive msgs) (d.heard msgs) := by
  induction msgs generalizing core d with
  | nil => exact h
  | cons msg msgs ih =>
    rw [List.forall_mem_cons] at hmsgs
    exact ih (h.message hmsgs.1) hmsgs.2

end Rehearsed

theorem OfHand.inHand {tableId handId : ℕ} {msg : ServerMessage} (h : OfHand tableId handId msg) :
    InHand tableId msg := by
  cases h with
  | event ev => exact .event ev
  | prompt => exact .prompt _ _ _ _ _

/-- Away from the table, and without a hand in flight, a replay shows nothing. -/
theorem receive_away {tableId : ℕ} {core : ClientCore}
    (haway : core.view.isSeatedAt tableId = false) (hnone : core.view.currentHand = none)
    {msgs : List ServerMessage} (hmsgs : ∀ msg ∈ msgs, InHand tableId msg) :
    (core.receive msgs).view.currentHand = none ∧
      (core.receive msgs).view.phase = core.view.phase := by
  induction msgs generalizing core with
  | nil => exact ⟨hnone, rfl⟩
  | cons msg msgs ih =>
    rw [List.forall_mem_cons] at hmsgs
    rw [ClientCore.receive, List.foldl_cons]
    cases hmsgs.1 with
    | event ev =>
      rw [handleInbound_event, Tracked.projectEngineEvent_of_not_seated haway]
      exact ih haway hnone hmsgs.2
    | prompt =>
      rw [handleInbound_prompt]
      exact ih haway (by simp [hnone]) hmsgs.2

namespace Tracked

variable {core core' : ClientCore} {d d' : Dialogue}

theorem seat_event (d : Dialogue) (tableId : ℕ) (ev : EngineEvent) :
    (d.event tableId ev).seat = d.seat := by
  unfold Dialogue.event
  split
  · rfl
  · split
    · cases ev with
      | actionTaken =>
        dsimp only
        split <;> rfl
      | handStarted | handEnded | holeCardsDealt | boardDealt | playerAllIn => rfl
    · rfl

theorem seat_heard {tableId handId : ℕ} (d : Dialogue) {msgs : List ServerMessage}
    (hmsgs : ∀ msg ∈ msgs, OfHand tableId handId msg) : (d.heard msgs).seat = d.seat := by
  induction msgs generalizing d with
  | nil => rfl
  | cons msg msgs ih =>
    rw [List.forall_mem_cons] at hmsgs
    refine (ih _ hmsgs.2).trans ?_
    cases hmsgs.1 with
    | event ev => exact seat_event d tableId ev
    | prompt =>
      simp only [Dialogue.message]
      split <;> rfl

theorem seat_replayed (d : Dialogue) {events : List ServerMessage}
    (h : (d.heard events).seat = d.seat) : (d.replayed events).seat = d.seat := by
  simp only [Dialogue.replayed]
  split_ifs
  · exact h
  · rfl
  · exact h
  · exact h

theorem replayEvents (h : Tracked core d) {ofAnswer : Bool} {handId : ℕ}
    {events : List ServerMessage} (hserved : Served d (.message (.replayEvents handId events)))
    (hexpected : Expected core d ofAnswer (.message (.replayEvents handId events))) :
    Tracked (ClientCore.handleInbound (.replayEvents handId events) core).1
      (d.replayed events) := by
  obtain ⟨tableId, seat, dealer, deckSeed, rest, hseat, hevents, hrest⟩ := hserved
  have hheard : d.heard events =
      (d.event tableId (.handStarted handId dealer deckSeed)).heard rest := by rw [hevents]; rfl
  have hseat' : (d.replayed events).seat = d.seat := by
    refine seat_replayed d ?_
    rw [hheard, seat_heard _ hrest, seat_event]
  have htable : atTable core d = core.view.isSeatedAt tableId := by rw [atTable, hseat]; rfl
  change ReplayExpected core d events at hexpected
  rw [ReplayExpected, htable] at hexpected
  rw [ClientCore.handleInbound, ClientCore.handleReplay_fst]
  cases hat : core.view.isSeatedAt tableId with
  | true =>
    rw [hat, if_pos rfl] at hexpected
    obtain ⟨seat', hphase⟩ := phase_of_isSeatedAt hat
    cases hseat.symm.trans (h.seated tableId seat' hphase)
    -- the replay starts the hand anew and rehearses it message by message
    have hrehearsed : Rehearsed tableId seat handId (core.receive events) (d.heard events) := by
      have hstart := (Rehearsed.start hphase hseat handId dealer deckSeed).receive hrest
      rw [hheard, hevents, ClientCore.receive, List.foldl_cons, handleInbound_event]
      exact hstart
    constructor
    · intro hand hhand
      have hshows := hrehearsed.shows hand hhand
      rcases hexpected with hover | ⟨hstands, hlast⟩
      · have hsame := hrehearsed.sameHand
        rw [hhand, hover] at hsame
        cases hsame
      · rw [← hstands] at hshows
        exact ⟨hshows.awaiting, fun hawaits => by
          rw [hlast hawaits]
          exact hshows.shown hawaits⟩
    · intro table seat' hphase'
      cases hrehearsed.phase.symm.trans hphase'
      exact hseat'.trans hseat
  | false =>
    rw [hat, if_neg Bool.false_ne_true] at hexpected
    have hmsgs : ∀ msg ∈ events, InHand tableId msg := by
      rw [hevents, List.forall_mem_cons]
      exact ⟨.event _, fun msg hmsg => (hrest msg hmsg).inHand⟩
    obtain ⟨hnone, hphase⟩ := receive_away hat hexpected hmsgs
    refine of_none hnone fun table seat' hphase' => hseat'.trans (h.seated table seat' ?_)
    exact hphase.symm.trans hphase'

/-! ## Intents -/

/-- An intent that neither submits nor drops the connection. -/
theorem intent (h : Tracked core d) (hhand : core'.view.currentHand = core.view.currentHand)
    (hprompt : core'.activePrompt = core.activePrompt)
    (hphase : core'.view.phase = core.view.phase ∨ ∀ tableId seat,
      core'.view.phase ≠ .seated tableId seat) : Tracked core' d := by
  refine h.frame hhand hprompt fun tableId seat hat => ?_
  rcases hphase with hsame | haway
  · exact hsame.symm.trans hat
  · exact absurd hat (haway tableId seat)

theorem queueOrSendHandshake (h : Tracked core d) (msg : ClientMessage) :
    Tracked (core.queueOrSendHandshake msg).1 d := by
  unfold ClientCore.queueOrSendHandshake
  split
  · exact h.intent rfl rfl (Or.inr nofun)
  · exact h.intent rfl rfl (Or.inl rfl)

/-- A submission that is sent puts the prompt away. -/
theorem submitAction (h : Tracked core d) (action : Action) (ofAnswer : Bool) :
    Tracked (core.handleSubmitAction action).1
      (d.entry ⟨.intent (.submitAction action), (core.handleSubmitAction action).2⟩ ofAnswer) := by
  unfold ClientCore.handleSubmitAction
  split
  · rename_i hawaits
    split
    · exact h
    · split
      · obtain ⟨hand, hhand⟩ := Option.isSome_iff_exists.mp (isSome_of_stillAwaiting hawaits)
        have hstands : d.stands = true := (h.stands_of_awaiting hhand).symm.trans hawaits
        simp only [Dialogue.entry, Entry.submits, List.any_cons, Bool.true_or, hstands,
          and_self, if_true]
        refine ⟨fun hand hsome => ?_, h.seated⟩
        obtain ⟨hand, -, rfl⟩ := Option.map_eq_some_iff.mp hsome
        have hanswered : Dialogue.stands { d with status := .answered } = false := by
          simp [Dialogue.stands]
        rw [hanswered]
        exact HandShows.of_false rfl
      · exact h
  · exact h

/-- One input. -/
theorem handle (h : Tracked core d) {input : Input} {ofAnswer : Bool} (hserved : Served d input)
    (hexpected : Expected core d ofAnswer input) :
    Tracked (core.handle input).1 (d.entry ⟨input, (core.handle input).2⟩ ofAnswer) := by
  cases input with
  | message msg =>
    cases msg with
    | tableEvent tableId ev =>
      have hevent := h.event hexpected
      rw [← handleInbound_event] at hevent
      exact hevent
    | prompt => exact h.prompt hexpected
    | actionRejected => exact h.actionRejected hexpected
    | replayEvents => exact h.replayEvents hserved hexpected
    | welcome | rejected =>
      simp only [ClientCore.handle, ClientCore.handleInbound]
      exact h.intent rfl rfl (Or.inr nofun)
    | heartbeat | tableList =>
      simp only [ClientCore.handle, ClientCore.handleInbound]
      exact h.intent rfl rfl (Or.inl rfl)
    | tableState =>
      simp only [ClientCore.handle, ClientCore.handleInbound]
      split <;> exact h.intent rfl rfl (Or.inl rfl)
    | joinedTable tableId seat seats =>
      simp only [ClientCore.handle, ClientCore.handleInbound]
      refine of_none rfl fun table seat' hphase => ?_
      cases hphase
      rfl
    | leftTable | goodbye =>
      simp only [ClientCore.handle, ClientCore.handleInbound]
      exact of_none rfl nofun
  | intent intent =>
    cases intent with
    | connect => exact h.intent rfl rfl (Or.inr nofun)
    | connectionOpened =>
      simp only [ClientCore.handle, ClientCore.handleIntent]
      cases core.pendingHandshake with
      | none => exact h.intent rfl rfl (Or.inl rfl)
      | some msg => exact h.intent rfl rfl (Or.inr nofun)
    | register | authenticatePassword => exact h.queueOrSendHandshake _
    | authenticateSession key deviceLabel =>
      have hkey : Tracked { core with sessionKey := some key } d := h.intent rfl rfl (Or.inl rfl)
      exact hkey.queueOrSendHandshake _
    | listTables | joinTable | leaveTable | heartbeat => exact h.intent rfl rfl (Or.inl rfl)
    | submitAction action => exact h.submitAction action ofAnswer
    | disconnect | connectionLost => exact of_none rfl nofun

end Tracked

/-! ## Runs -/

/-- The client, and what its messages say of its prompts. -/
structure Conversation where
  core : ClientCore
  dialogue : Dialogue

namespace Conversation

def start (key : Option String) : Conversation := ⟨.new key, .empty⟩

/-- An input; `label.2` says what a rejection rejects. -/
def Step (s : Conversation) (label : Input × Bool) (t : Conversation) : Prop :=
  Served s.dialogue label.1 ∧ t = ⟨(s.core.handle label.1).1,
    s.dialogue.entry ⟨label.1, (s.core.handle label.1).2⟩ label.2⟩

/-- An input that the client is prepared for. -/
def ExpectedStep (s : Conversation) (label : Input × Bool) (t : Conversation) : Prop :=
  s.Step label t ∧ Expected s.core s.dialogue label.2 label.1

theorem tracked_of_trace {key : Option String} {labels : List (Input × Bool)} {s : Conversation}
    (h : Trace ExpectedStep (start key) labels s) : Tracked s.core s.dialogue := by
  refine h.invariant (fun s => Tracked s.core s.dialogue) ?_ (Tracked.of_none rfl nofun)
  intro s label t hs hstep
  obtain ⟨⟨hserved, rfl⟩, hexpected⟩ := hstep
  exact hs.handle hserved hexpected

end Conversation

/-- A hand with two prompts, the first of which is answered. -/
def twoPrompts : List (Input × Bool) :=
  [(.message (.joinedTable 1 0 []), false),
    (.message (.tableEvent 1 (.handStarted 7 0 0)), false),
    (.message (.prompt 1 7 0 ⟨false, true, 1, true, 4, 200, 199⟩ 30000), false),
    (.intent (.submitAction .call), false),
    (.message (.tableEvent 1 (.actionTaken 0 .call 4)), false),
    (.message (.prompt 1 7 0 ⟨true, false, 0, true, 2, 198, 198⟩ 30000), false)]

end VibePoker.Client
