import VibePoker.Server.BroadcastSink

/-!
# What a seat is told

Two streams of events that differ only in what a seat is not entitled to know
lead to the same messages for the seat, and to the same replay buffer, if and
only if they start their hands with the same deck seeds: the sink masks hole
cards, but passes the seed of the deck on.

## Main definitions

* `SameStream` — streams that are the same to a seat that knows its rights
* `SameView` — sinks that told a seat the same

## Main results

* `same_view_iff` — when such streams give the same view
* `seed_in_view` — two streams that do not
-/

namespace VibePoker.Server

open VibePoker.Core VibePoker.Game VibePoker.Net

variable {n : ℕ}

/-! ## What a seat is entitled to know -/

/-- The seat folded in the course of these events. -/
def HasFolded (past : List EngineEvent) (seat : ℕ) : Prop :=
  ∃ potTotal, EngineEvent.actionTaken seat .fold potTotal ∈ past

/-- Board cards dealt in the course of these events. -/
def cardsDealt : List EngineEvent → ℕ
  | [] => 0
  | .boardDealt _ cards :: past => cards.length + cardsDealt past
  | _ :: past => cardsDealt past

/-- A hand of `n` seats got to the river with two seats not folded. -/
def ShownDown (n : ℕ) (past : List EngineEvent) : Prop :=
  5 ≤ cardsDealt past ∧ ∃ i j : Fin n, i ≠ j ∧ ¬ HasFolded past i ∧ ¬ HasFolded past j

/-- Outcomes of a seat that differ at most in cards that seat `i` may not see. -/
structure SameOutcome (i : Fin n) (past : List EngineEvent) (o o' : SeatOutcome) : Prop where
  seat_eq : o.seat = o'.seat
  chipDelta_eq : o.chipDelta = o'.chipDelta
  satOut_eq : o.satOut = o'.satOut
  holeCards_eq : o.seat = i ∨ (ShownDown n past ∧ ¬ HasFolded past o.seat) →
    o.holeCards = o'.holeCards

/-- Results that differ at most in cards that seat `i` may not see. -/
structure SameResult (i : Fin n) (past : List EngineEvent) (result result' : HandResult) :
    Prop where
  handId_eq : result.handId = result'.handId
  board_eq : result.board = result'.board
  seats : List.Forall₂ (SameOutcome i past) result.seats result'.seats

/-- The event tells every seat the same. -/
def IsPublic : EngineEvent → Prop
  | .boardDealt _ _ | .actionTaken _ _ _ | .playerAllIn _ _ => True
  | _ => False

/-- Streams of one hand, after the events `past`, that are equal except for what
seat `i` is not entitled to know: deck seeds, the hole cards of others, and in the
result those of others that are not shown down. -/
inductive SameStream (i : Fin n) :
    List EngineEvent → List EngineEvent → List EngineEvent → Prop
  | nil (past : List EngineEvent) : SameStream i past [] []
  | started {past events events' : List EngineEvent} (handId dealer deckSeed deckSeed' : ℕ)
      (rest : SameStream i (past ++ [.handStarted handId dealer deckSeed]) events events') :
      SameStream i past (.handStarted handId dealer deckSeed :: events)
        (.handStarted handId dealer deckSeed' :: events')
  | dealt {past events events' : List EngineEvent} (seat : ℕ) (cards cards' : Card × Card)
      (hown : seat = i → cards = cards')
      (rest : SameStream i (past ++ [.holeCardsDealt seat cards]) events events') :
      SameStream i past (.holeCardsDealt seat cards :: events)
        (.holeCardsDealt seat cards' :: events')
  | shared {past events events' : List EngineEvent} (event : EngineEvent) (h : IsPublic event)
      (rest : SameStream i (past ++ [event]) events events') :
      SameStream i past (event :: events) (event :: events')
  | ended {past : List EngineEvent} (handId : ℕ) {result result' : HandResult}
      (h : SameResult i past result result') :
      SameStream i past [.handEnded handId result] [.handEnded handId result']

/-- The seeds of the decks of the hands that were started. -/
def deckSeeds : List EngineEvent → List ℕ
  | [] => []
  | .handStarted _ _ deckSeed :: events => deckSeed :: deckSeeds events
  | _ :: events => deckSeeds events

/-- Both sinks sent seat `i` the same and keep the same messages for it. -/
def SameView (i : Fin n) (sink sink' : BroadcastSink n) : Prop :=
  (sink.links i).current.sent = (sink'.links i).current.sent ∧
    (sink.links i).replay = (sink'.links i).replay

/-! ## What a seat is sent -/

namespace BroadcastSink

/-- What seat `i` is shown of an event. -/
def seenBy (sink : BroadcastSink n) (i : Fin n) : EngineEvent → Option EngineEvent
  | .holeCardsDealt seat cards =>
    if i.val = seat then some (.holeCardsDealt seat cards) else none
  | .handEnded handId result => some (.handEnded handId (sink.filteredHandEnd (some i) result))
  | event => some event

/-- What a link does with an event it is shown. -/
def receive (tableId : ℕ) (link : SeatLink) : EngineEvent → SeatLink
  | .handStarted handId dealer deckSeed =>
    (link.replayBegin handId).fan (.tableEvent tableId (.handStarted handId dealer deckSeed))
  | .handEnded handId result =>
    (link.fan (.tableEvent tableId (.handEnded handId result))).replayEnd
  | event => link.fan (.tableEvent tableId event)

/-- What seat `i` is shown of a stream. -/
def delivered (i : Fin n) : BroadcastSink n → List EngineEvent → List EngineEvent
  | _, [] => []
  | sink, event :: events =>
    (sink.seenBy i event).toList ++ delivered i (sink.onEvent event) events

@[simp] theorem onEvent_tableId (sink : BroadcastSink n) (event : EngineEvent) :
    (sink.onEvent event).tableId = sink.tableId := by
  cases event <;> rfl

theorem onEvent_links (sink : BroadcastSink n) (event : EngineEvent) (i : Fin n) :
    (sink.onEvent event).links i =
      (sink.seenBy i event).toList.foldl (receive sink.tableId) (sink.links i) := by
  cases event with
  | holeCardsDealt seat cards =>
    simp only [onEvent, sendTo, seenBy]
    split <;> rfl
  | _ => rfl

/-- A link ends up with what its seat was shown. -/
theorem onEvents_links (sink : BroadcastSink n) (events : List EngineEvent) (i : Fin n) :
    (sink.onEvents events).links i =
      (delivered i sink events).foldl (receive sink.tableId) (sink.links i) := by
  induction events generalizing sink with
  | nil => rfl
  | cons event events ih =>
    have hrest := ih (sink.onEvent event)
    rw [onEvent_tableId, onEvent_links] at hrest
    rw [delivered, List.foldl_append]
    exact hrest

theorem sent_receive (tableId : ℕ) (link : SeatLink) (event : EngineEvent) :
    (receive tableId link event).current.sent =
      link.current.sent ++ [.tableEvent tableId event] := by
  cases event <;> rfl

theorem sent_foldl_receive (tableId : ℕ) (link : SeatLink) (events : List EngineEvent) :
    (events.foldl (receive tableId) link).current.sent =
      link.current.sent ++ events.map (.tableEvent tableId) := by
  induction events generalizing link with
  | nil => simp
  | cons event events ih =>
    rw [List.foldl_cons, ih, sent_receive]
    simp

/-- The messages to a seat are determined by what it is shown, and determine it. -/
theorem sameView_iff (tableId : ℕ) (links : Fin n → SeatLink) (i : Fin n)
    (events events' : List EngineEvent) :
    SameView i ((new tableId links).onEvents events) ((new tableId links).onEvents events') ↔
      delivered i (new tableId links) events = delivered i (new tableId links) events' := by
  have hlinks := onEvents_links (new tableId links) events i
  have hlinks' := onEvents_links (new tableId links) events' i
  constructor
  · rintro ⟨hsent, -⟩
    rw [hlinks, hlinks', sent_foldl_receive, sent_foldl_receive, List.append_cancel_left_eq]
      at hsent
    refine List.map_injective_iff.mpr ?_ hsent
    intro event event' heq
    exact (ServerMessage.tableEvent.inj heq).2
  · intro hdelivered
    rw [SameView, hlinks, hlinks', hdelivered]
    exact ⟨rfl, rfl⟩

end BroadcastSink

/-! ## Masking -/

/-- The sink has kept track of the events. -/
structure Tracks (past : List EngineEvent) (sink : BroadcastSink n) : Prop where
  mem_folded : ∀ seat, seat ∈ sink.folded ↔ HasFolded past seat
  boardCards_eq : sink.boardCards = cardsDealt past

theorem cardsDealt_append (past later : List EngineEvent) :
    cardsDealt (past ++ later) = cardsDealt past + cardsDealt later := by
  induction past with
  | nil => simp [cardsDealt]
  | cons event past ih =>
    cases event with
    | boardDealt street cards =>
      rw [List.cons_append, cardsDealt, cardsDealt, ih, Nat.add_assoc]
    | _ => exact ih

theorem hasFolded_append_singleton {past : List EngineEvent} {event : EngineEvent} {seat : ℕ} :
    HasFolded (past ++ [event]) seat ↔
      HasFolded past seat ∨ ∃ potTotal, event = .actionTaken seat .fold potTotal := by
  simp only [HasFolded, List.mem_append, List.mem_singleton, exists_or, eq_comm]

/-- Every event but the last keeps the sink up to date. -/
theorem Tracks.onEvent {past : List EngineEvent} {sink : BroadcastSink n} (h : Tracks past sink)
    {event : EngineEvent} (hne : ∀ handId result, event ≠ .handEnded handId result) :
    Tracks (past ++ [event]) (sink.onEvent event) := by
  have hfolded := h.mem_folded
  have hboard := h.boardCards_eq
  cases event with
  | handEnded handId result => exact absurd rfl (hne handId result)
  | actionTaken seat action potTotal =>
    refine ⟨fun other => ?_, ?_⟩
    · rw [hasFolded_append_singleton, ← hfolded other]
      by_cases hfold : action = .fold
      · subst hfold
        simp [BroadcastSink.onEvent, BroadcastSink.record, BroadcastSink.broadcastAll,
          BroadcastSink.fanEach, Finset.mem_insert, or_comm, eq_comm]
      · simp [BroadcastSink.onEvent, BroadcastSink.record, BroadcastSink.broadcastAll,
          BroadcastSink.fanEach, hfold]
    · rw [cardsDealt_append, ← hboard]
      rfl
  | boardDealt street cards =>
    refine ⟨fun other => ?_, ?_⟩
    · rw [hasFolded_append_singleton, ← hfolded other]
      simp [BroadcastSink.onEvent, BroadcastSink.record, BroadcastSink.broadcastAll,
        BroadcastSink.fanEach]
    · rw [cardsDealt_append, ← hboard]
      simp [BroadcastSink.onEvent, BroadcastSink.record, BroadcastSink.broadcastAll,
        BroadcastSink.fanEach, cardsDealt]
  | _ =>
    refine ⟨fun other => ?_, ?_⟩
    · rw [hasFolded_append_singleton, ← hfolded other]
      simp [BroadcastSink.onEvent, BroadcastSink.record, BroadcastSink.broadcastAll,
        BroadcastSink.fanEach, BroadcastSink.sendTo]
    · rw [cardsDealt_append, ← hboard]
      rfl

theorem Tracks.showdown_iff {past : List EngineEvent} {sink : BroadcastSink n}
    (h : Tracks past sink) : sink.showdown ↔ ShownDown n past := by
  rw [BroadcastSink.showdown, ShownDown, h.boardCards_eq, Bool.and_eq_true, decide_eq_true_eq,
    decide_eq_true_eq]
  refine and_congr_right fun _ => ?_
  rw [Nat.succ_le_iff, Finset.one_lt_card]
  simp only [Finset.mem_filter, Finset.mem_univ, true_and, h.mem_folded]
  constructor
  · rintro ⟨i, hi, j, hj, hne⟩
    exact ⟨i, j, hne, hi, hj⟩
  · rintro ⟨i, j, hne, hi, hj⟩
    exact ⟨i, hi, j, hj, hne⟩

/-- Masking hides what two outcomes may differ in. -/
theorem filteredOutcome_eq {i : Fin n} {past : List EngineEvent} {sink sink' : BroadcastSink n}
    (h : Tracks past sink) (h' : sink'.folded = sink.folded)
    (hboard : sink'.boardCards = sink.boardCards) {o o' : SeatOutcome}
    (hsame : SameOutcome i past o o') :
    sink.filteredOutcome (some i) o = sink'.filteredOutcome (some i) o' := by
  obtain ⟨seat, holeCards, chipDelta, satOut⟩ := o
  obtain ⟨seat', holeCards', chipDelta', satOut'⟩ := o'
  obtain ⟨rfl, rfl, rfl, hcards⟩ := hsame
  have hshow : sink'.showdown = sink.showdown := by
    rw [BroadcastSink.showdown, BroadcastSink.showdown, h', hboard]
  have hreveals : (sink.showdown && decide (seat ∉ sink.folded)) = true ↔
      ShownDown n past ∧ ¬ HasFolded past seat := by
    rw [Bool.and_eq_true, h.showdown_iff, decide_eq_true_eq, h.mem_folded]
  by_cases hvisible : seat = i ∨ (ShownDown n past ∧ ¬ HasFolded past seat)
  · -- the seat may see the cards, so they are equal before masking
    obtain rfl : holeCards = holeCards' := hcards hvisible
    simp only [BroadcastSink.filteredOutcome, h', hshow]
  · -- both sinks mask the cards
    have hmask : ¬ some i.val = some seat ∧
        ¬ (sink.showdown && decide (seat ∉ sink.folded)) = true := by
      constructor
      · intro hself
        exact hvisible (Or.inl (Option.some.inj hself).symm)
      · intro hshown
        exact hvisible (Or.inr (hreveals.mp hshown))
    have hmask' : ¬ some i.val = some seat ∧
        ¬ (sink'.showdown && decide (seat ∉ sink'.folded)) = true := by
      rw [hshow, h']
      exact hmask
    exact (if_pos hmask).trans (if_pos hmask').symm

theorem filteredHandEnd_eq {i : Fin n} {past : List EngineEvent} {sink sink' : BroadcastSink n}
    (h : Tracks past sink) (h' : sink'.folded = sink.folded)
    (hboard : sink'.boardCards = sink.boardCards) {result result' : HandResult}
    (hsame : SameResult i past result result') :
    sink.filteredHandEnd (some i) result = sink'.filteredHandEnd (some i) result' := by
  obtain ⟨handId, board, seats⟩ := result
  obtain ⟨handId', board', seats'⟩ := result'
  obtain ⟨rfl, rfl, hseats⟩ := hsame
  simp only [BroadcastSink.filteredHandEnd, HandResult.mk.injEq, true_and]
  dsimp only at hseats
  induction hseats with
  | nil => rfl
  | cons head _ ih => rw [List.map_cons, List.map_cons, ih, filteredOutcome_eq h h' hboard head]

/-- What a sink tracks after an event depends on what it tracked before only. -/
theorem onEvent_tracked (sink sink' : BroadcastSink n) (event : EngineEvent)
    (h : sink'.folded = sink.folded) (hboard : sink'.boardCards = sink.boardCards) :
    (sink'.onEvent event).folded = (sink.onEvent event).folded ∧
      (sink'.onEvent event).boardCards = (sink.onEvent event).boardCards := by
  cases event with
  | actionTaken seat action potTotal =>
    simp only [BroadcastSink.onEvent, BroadcastSink.record, BroadcastSink.broadcastAll,
      BroadcastSink.fanEach, h]
    exact ⟨trivial, hboard⟩
  | boardDealt street cards =>
    simp only [BroadcastSink.onEvent, BroadcastSink.record, BroadcastSink.broadcastAll,
      BroadcastSink.fanEach, hboard]
    exact ⟨h, trivial⟩
  | handEnded handId result => exact ⟨rfl, rfl⟩
  | _ => exact ⟨h, hboard⟩

theorem seenBy_of_isPublic (sink : BroadcastSink n) (i : Fin n) {event : EngineEvent}
    (h : IsPublic event) : sink.seenBy i event = some event := by
  cases event with
  | boardDealt | actionTaken | playerAllIn => rfl
  | _ => exact h.elim

theorem deckSeeds_of_isPublic {event : EngineEvent} (h : IsPublic event)
    (events : List EngineEvent) : deckSeeds (event :: events) = deckSeeds events := by
  cases event with
  | boardDealt | actionTaken | playerAllIn => rfl
  | _ => exact h.elim

/-- Streams that are the same to seat `i` show it the same exactly if their deck
seeds are the same. -/
theorem delivered_eq_iff {i : Fin n} {past events events' : List EngineEvent}
    (hsame : SameStream i past events events') {sink sink' : BroadcastSink n}
    (h : Tracks past sink) (h' : sink'.folded = sink.folded)
    (hboard : sink'.boardCards = sink.boardCards) :
    BroadcastSink.delivered i sink events = BroadcastSink.delivered i sink' events' ↔
      deckSeeds events = deckSeeds events' := by
  induction hsame generalizing sink sink' with
  | nil => simp [BroadcastSink.delivered, deckSeeds]
  | started handId dealer deckSeed deckSeed' rest ih =>
    have htracks : Tracks _ (sink.onEvent (.handStarted handId dealer deckSeed)) :=
      h.onEvent (by simp)
    have hrest := @ih (sink.onEvent (.handStarted handId dealer deckSeed))
      (sink'.onEvent (.handStarted handId dealer deckSeed')) htracks h' hboard
    simp only [BroadcastSink.delivered, BroadcastSink.seenBy, Option.toList_some,
      List.singleton_append, List.cons.injEq, EngineEvent.handStarted.injEq, true_and, deckSeeds]
    -- the seeds are the first thing that the seat could tell the streams apart by
    rw [hrest]
  | dealt seat cards cards' hown rest ih =>
    have htracks : Tracks _ (sink.onEvent (.holeCardsDealt seat cards)) := h.onEvent (by simp)
    have hrest := @ih (sink.onEvent (.holeCardsDealt seat cards))
      (sink'.onEvent (.holeCardsDealt seat cards')) htracks h' hboard
    simp only [BroadcastSink.delivered, BroadcastSink.seenBy, deckSeeds]
    by_cases hseat : i.val = seat
    · obtain rfl := hown hseat.symm
      simp only [if_pos hseat, Option.toList_some, List.singleton_append, List.cons.injEq,
        true_and]
      exact hrest
    · -- the cards of another seat are not shown at all
      simp only [if_neg hseat, Option.toList_none, List.nil_append]
      exact hrest
  | shared event hpublic rest ih =>
    obtain ⟨hfolded, hcards⟩ := onEvent_tracked sink sink' event h' hboard
    have hne : ∀ handId result, event ≠ .handEnded handId result := by
      rintro handId result rfl
      exact hpublic
    have hrest := @ih (sink.onEvent event) (sink'.onEvent event) (h.onEvent hne) hfolded hcards
    simp only [BroadcastSink.delivered, seenBy_of_isPublic _ _ hpublic, Option.toList_some,
      List.singleton_append, List.cons.injEq, true_and, deckSeeds_of_isPublic hpublic]
    exact hrest
  | ended handId hresult =>
    simp [BroadcastSink.delivered, BroadcastSink.seenBy, deckSeeds,
      filteredHandEnd_eq h h' hboard hresult]

theorem tracks_new (tableId : ℕ) (links : Fin n → SeatLink) :
    Tracks [] (BroadcastSink.new tableId links) where
  mem_folded seat := by simp [BroadcastSink.new, HasFolded]
  boardCards_eq := rfl

/-- Streams that are the same but for what a seat is not entitled to know give it
the same view exactly if they carry the same deck seeds. -/
theorem same_view_iff (tableId : ℕ) (links : Fin n → SeatLink) {i : Fin n}
    {events events' : List EngineEvent} (hsame : SameStream i [] events events') :
    SameView i ((BroadcastSink.new tableId links).onEvents events)
        ((BroadcastSink.new tableId links).onEvents events') ↔
      deckSeeds events = deckSeeds events' := by
  rw [BroadcastSink.sameView_iff]
  exact delivered_eq_iff hsame (tracks_new tableId links) rfl rfl

/-! ## A hand that is folded at once -/

/-- Seat 0 of two folds its small blind; seat 1 holds `theirs`. -/
def foldedHand (deckSeed : ℕ) (theirs : Card × Card) : List EngineEvent :=
  [.handStarted 1 0 deckSeed, .holeCardsDealt 0 (⟨0⟩, ⟨13⟩), .holeCardsDealt 1 theirs,
    .actionTaken 0 .fold 3,
    .handEnded 1 ⟨1, [], [⟨0, some (⟨0⟩, ⟨13⟩), -1, false⟩, ⟨1, some theirs, 1, false⟩]⟩]

theorem sameStream_foldedHand (deckSeed deckSeed' : ℕ) (theirs theirs' : Card × Card) :
    SameStream (0 : Fin 2) [] (foldedHand deckSeed theirs) (foldedHand deckSeed' theirs') := by
  refine .started 1 0 deckSeed deckSeed' ?_
  refine .dealt 0 _ _ (fun _ => rfl) ?_
  refine .dealt 1 _ _ (fun h => absurd h (by decide)) ?_
  refine .shared _ trivial ?_
  refine .ended 1 ⟨rfl, rfl, .cons ⟨rfl, rfl, rfl, fun _ => rfl⟩ (.cons ⟨rfl, rfl, rfl, ?_⟩ .nil)⟩
  -- no board was dealt, so the cards of seat 1 are not shown down
  rintro (hown | ⟨⟨hriver, -⟩, -⟩)
  · exact absurd hown Nat.one_ne_zero
  · exact absurd hriver (Nat.not_succ_le_zero 4)

/-- Two fresh connections. -/
def freshLinks : Fin 2 → SeatLink
  | 0 => SeatLink.new (Connection.new 7 "ann" 1)
  | 1 => SeatLink.new (Connection.new 8 "bob" 2)

theorem same_view_of_foldedHand :
    SameView 0 ((BroadcastSink.new 1 freshLinks).onEvents (foldedHand 0 (⟨5⟩, ⟨6⟩)))
      ((BroadcastSink.new 1 freshLinks).onEvents (foldedHand 0 (⟨7⟩, ⟨8⟩))) :=
  (same_view_iff 1 freshLinks (sameStream_foldedHand 0 0 _ _)).mpr rfl

/-- The seed of the deck reaches a seat that is not entitled to know it. -/
theorem seed_in_view :
    ¬ ∀ (links : Fin 2 → SeatLink) (events events' : List EngineEvent),
      SameStream (0 : Fin 2) [] events events' →
        SameView 0 ((BroadcastSink.new 1 links).onEvents events)
          ((BroadcastSink.new 1 links).onEvents events') := by
  intro hall
  have hview := hall freshLinks _ _
    (sameStream_foldedHand 0 1 (⟨5⟩, ⟨6⟩) (⟨5⟩, ⟨6⟩))
  rw [BroadcastSink.sameView_iff] at hview
  -- already the first event differs
  exact absurd (List.cons.inj hview).1 (by decide)

end VibePoker.Server
