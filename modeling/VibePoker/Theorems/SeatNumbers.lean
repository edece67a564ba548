import VibePoker.Game.SeatNumbers
import VibePoker.Server.RemoteAgent
import VibePoker.Server.Seats
import VibePoker.Theorems.Masking

/-!
# Seat numbers on the wire

A hand is played on the seats of a snapshot, numbered from zero, and its prompts
and events carry these numbers. The table's own messages and the persisted rows
carry the seats of the table. Both agree exactly if the seats that play come first
at the table.

## Main definitions

* `HandSends` — the messages a hand sends to a seat
* `NumbersAgree` — the seat numbers in them are those of the table
* `PlaysInPlace` — the seats of the hand have their numbers at the table

## Main results

* `numbersAgree_iff` — when the numbers agree
* `numbers_disagree` — a table at which the lowest seat was vacated
-/

namespace VibePoker.Server

open VibePoker.Core VibePoker.Game VibePoker.Net

variable {n m : ℕ}

/-- The seat numbers of a message about a hand. -/
def handSeatNumbers : ServerMessage → List ℕ
  | .tableEvent _ ev => ev.seatNumbers
  | .prompt _ _ seat _ _ => [seat]
  | _ => []

/-! ## The messages of a hand -/

/-- In the course of `ops`, an output of the engine sends `msg` to seat `i`. -/
def HandSends (handId deadlineMs : ℕ) (sink : BroadcastSink n) (ops : List (HandOp n))
    (i : Fin n) (msg : ServerMessage) : Prop :=
  ∃ before o after, ops = before ++ .output o :: after ∧
    (((HandOp.output o).apply handId deadlineMs
        (before.foldl (HandOp.apply handId deadlineMs) sink)).links i).current.sent =
      ((before.foldl (HandOp.apply handId deadlineMs) sink).links i).current.sent ++ [msg]

/-- The starting stacks of the hand on a snapshot. -/
def RunningSnapshot.stacks {κ : Type*} (snapshot : RunningSnapshot κ m) : List ℕ :=
  snapshot.players.map SnapshotPlayer.stack

/-- The links of the seats in the hand on a snapshot. -/
def RunningSnapshot.links (snapshot : RunningSnapshot SeatLink m) :
    Fin snapshot.stacks.length → SeatLink :=
  fun i => (snapshot.players.get (i.cast (List.length_map _))).link

/-- Engine seat `k` of the hand on a snapshot is seat `k` of the table. -/
def RunningSnapshot.InPlace {κ : Type*} (snapshot : RunningSnapshot κ m) (k : ℕ) : Prop :=
  ∃ p, snapshot.players[k]? = some p ∧ (p.tableSeat : ℕ) = k

/-- The seat numbers in the messages of a hand denote the seats that have these
numbers at the table, and the numbers in a seat's own cards and prompts are its own. -/
structure NumbersAgree (snapshot : RunningSnapshot SeatLink m)
    (sends : Fin snapshot.stacks.length → ServerMessage → Prop) : Prop where
  denotes : ∀ i msg, sends i msg → ∀ k ∈ handSeatNumbers msg, snapshot.InPlace k
  own_cards : ∀ i tableId seat cards, sends i (.tableEvent tableId (.holeCardsDealt seat cards)) →
    ∃ p, snapshot.players[(i : ℕ)]? = some p ∧ seat = p.tableSeat
  own_prompt : ∀ i tableId handId seat legal deadlineMs,
    sends i (.prompt tableId handId seat legal deadlineMs) →
      ∃ p, snapshot.players[(i : ℕ)]? = some p ∧ seat = p.tableSeat

/-- The dealer and the seats with chips have their numbers at the table. -/
def PlaysInPlace {κ : Type*} (snapshot : RunningSnapshot κ m) : Prop :=
  ∀ k p, snapshot.players[k]? = some p → k = snapshot.dealer ∨ 0 < p.stack →
    (p.tableSeat : ℕ) = k

/-! ## What an output sends -/

section Outputs

variable {handId deadlineMs : ℕ} {sink : BroadcastSink n} {i : Fin n} {msg : ServerMessage}

/-- What is shown of an event has the seat numbers of the event. -/
theorem seatNumbers_of_seenBy {ev shown : EngineEvent} (h : sink.seenBy i ev = some shown) :
    shown.seatNumbers = ev.seatNumbers := by
  cases ev with
  | holeCardsDealt seat cards =>
    rw [BroadcastSink.seenBy] at h
    split at h
    · rw [← Option.some.inj h]
    · cases h
  | handEnded handId result =>
    rw [← Option.some.inj h, EngineEvent.seatNumbers, EngineEvent.seatNumbers,
      BroadcastSink.filteredHandEnd, List.map_map]
    refine List.map_congr_left fun o _ => ?_
    rw [Function.comp_apply, BroadcastSink.filteredOutcome]
    split <;> rfl
  | _ => rw [← Option.some.inj h]

/-- Hole cards are shown to their own seat only. -/
theorem own_of_seenBy {ev : EngineEvent} {seat : ℕ} {cards : Card × Card}
    (h : sink.seenBy i ev = some (.holeCardsDealt seat cards)) : (i : ℕ) = seat := by
  cases ev with
  | holeCardsDealt seat' cards' =>
    rw [BroadcastSink.seenBy] at h
    split at h
    · rename_i hi
      rw [hi]
      exact (EngineEvent.holeCardsDealt.inj (Option.some.inj h)).1
    · cases h
  | _ => cases h

theorem onEvent_sent (sink : BroadcastSink n) (ev : EngineEvent) (i : Fin n) :
    ((sink.onEvent ev).links i).current.sent =
      (sink.links i).current.sent ++ (sink.seenBy i ev).toList.map (.tableEvent sink.tableId) := by
  rw [BroadcastSink.onEvent_links, BroadcastSink.sent_foldl_receive]

/-- An output that sends a message is an event shown to the seat, or its prompt. -/
theorem cases_of_sent {o : Output n}
    (h : (((HandOp.output o).apply handId deadlineMs sink).links i).current.sent =
      (sink.links i).current.sent ++ [msg]) :
    (∃ ev shown, o = .event ev ∧ sink.seenBy i ev = some shown ∧
        msg = .tableEvent sink.tableId shown) ∨
      ∃ d obs, o = .prompt d obs ∧ d.seat = i ∧
        msg = (PendingAction.ofObservation sink.tableId handId obs).prompt deadlineMs := by
  cases o with
  | event ev =>
    rw [HandOp.apply, onEvent_sent, List.append_cancel_left_eq] at h
    cases hshown : sink.seenBy i ev with
    | none => simp [hshown] at h
    | some shown =>
      rw [hshown] at h
      exact Or.inl ⟨ev, shown, rfl, hshown, (List.singleton_inj.mp h).symm⟩
  | notify ev => simp [HandOp.apply] at h
  | prompt d obs =>
    rw [HandOp.apply] at h
    dsimp only at h
    by_cases hi : i = d.seat
    · subst hi
      rw [Function.update_self] at h
      rcases (sink.links d.seat).ask_sent (.ofObservation sink.tableId handId obs) deadlineMs with
        hsame | hasked
      · simp [hsame] at h
      · rw [hasked, List.append_cancel_left_eq] at h
        exact Or.inr ⟨d, obs, rfl, rfl, (List.singleton_inj.mp h).symm⟩
    · simp [Function.update_of_ne hi] at h

/-- The engine's outputs among the operations are sent. -/
theorem handSends_of_mem {ops : List (HandOp n)} {outputs : List (Output n)}
    (hops : ops.filterMap HandOp.output? = outputs) {ev : EngineEvent}
    (hmem : Output.event ev ∈ outputs)
    (hshown : ∀ sink : BroadcastSink n, sink.seenBy i ev = some ev) :
    ∃ tableId, HandSends handId deadlineMs sink ops i (.tableEvent tableId ev) := by
  rw [← hops] at hmem
  obtain ⟨op, hop, hout⟩ := List.mem_filterMap.mp hmem
  cases op with
  | session => cases hout
  | output o =>
    obtain rfl := Option.some.inj hout
    obtain ⟨before, after, rfl⟩ := List.append_of_mem hop
    refine ⟨(before.foldl (HandOp.apply handId deadlineMs) sink).tableId, before, _, after, rfl, ?_⟩
    rw [HandOp.apply, onEvent_sent, hshown]
    rfl

end Outputs

/-! ## The numbers of the table -/

section Table

variable {κ : Type*} {inner : TableInner κ m} {config : TableConfig}

/-- The seat list of a table gives every player the number of its seat. -/
theorem mem_seatInfos {info : SeatInfo} :
    info ∈ inner.seatInfos ↔ ∃ i seat, inner.seats i = some seat ∧
      info = ⟨i, seat.playerId, seat.username, seat.stack⟩ := by
  simp only [TableInner.seatInfos, List.mem_filterMap, List.mem_finRange, true_and,
    Option.map_eq_some_iff]
  constructor
  · rintro ⟨i, seat, hseat, rfl⟩
    exact ⟨i, seat, hseat, rfl⟩
  · rintro ⟨i, seat, hseat, rfl⟩
    exact ⟨i, seat, hseat, rfl⟩

end Table

/-! ## Agreement -/

section Hand

variable {e : Engine} {tableId deadlineMs : ℕ} {order : Fin 52 → Card}
  {snapshot : RunningSnapshot SeatLink m} {answers : List Action}
  {ops : List (HandOp snapshot.stacks.length)}

/-- The run of the hand on a snapshot. -/
def RunningSnapshot.run {κ : Type*} (snapshot : RunningSnapshot κ m) (e : Engine) (tableId : ℕ)
    (order : Fin 52 → Card) (answers : List Action) :
    List (Output snapshot.stacks.length) × HandOutcome snapshot.stacks.length :=
  runHand e snapshot.handId (deriveSeed tableId snapshot.handId) order snapshot.stacks
    snapshot.dealer none answers

theorem stacks_getElem? {κ : Type*} (snapshot : RunningSnapshot κ m) (k : ℕ) :
    snapshot.stacks[k]? = (snapshot.players[k]?).map SnapshotPlayer.stack :=
  List.getElem?_map ..

/-- A seat of the hand is a player of the snapshot. -/
theorem player_of_seat {κ : Type*} (snapshot : RunningSnapshot κ m)
    (i : Fin snapshot.stacks.length) :
    ∃ p, snapshot.players[(i : ℕ)]? = some p ∧ p.stack = snapshot.stacks.get i :=
  player_of_stack i

/-- When the hand is played in place, all its numbers are those of the table. -/
theorem PlaysInPlace.agree (h : PlaysInPlace snapshot)
    (hdealer : snapshot.players ≠ [] → snapshot.dealer < snapshot.players.length)
    (hops : ops.filterMap HandOp.output? = (snapshot.run e tableId order answers).1) :
    NumbersAgree snapshot
      (HandSends snapshot.handId deadlineMs (.new tableId snapshot.links) ops) := by
  -- the hand names its dealer and its seats with chips only
  have hnames : ∀ i : Fin snapshot.stacks.length, ∀ o, .output o ∈ ops →
      ∀ k ∈ o.seatNumbers, snapshot.InPlace k := by
    intro i o ho
    have hmem : o ∈ (snapshot.run e tableId order answers).1 := by
      rw [← hops]
      exact List.mem_filterMap.mpr ⟨_, ho, rfl⟩
    refine names_runHand ?_ ?_ o hmem
    · obtain ⟨p, hp, -⟩ := player_of_seat snapshot i
      have hlt := hdealer fun hnil => by simp [hnil] at hp
      exact ⟨_, List.getElem?_eq_getElem hlt,
        h _ _ (List.getElem?_eq_getElem hlt) (Or.inl rfl)⟩
    · intro j hj
      obtain ⟨p, hp, hstack⟩ := player_of_seat snapshot j
      exact ⟨p, hp, h _ p hp (Or.inr (hstack ▸ hj))⟩
  have hprompts : ∀ d obs, .output (.prompt d obs) ∈ ops → obs.position = d.seat := by
    intro d obs ho
    have hmem : Output.prompt d obs ∈ (snapshot.run e tableId order answers).1 := by
      rw [← hops]
      exact List.mem_filterMap.mpr ⟨_, ho, rfl⟩
    obtain ⟨t, used, t', -, -, -, hobs⟩ := asked_of_prompt (List.mem_filterMap.mpr ⟨_, hmem, rfl⟩)
    exact position_of_observation hobs
  have hown : ∀ i : Fin snapshot.stacks.length, snapshot.InPlace i →
      ∃ p, snapshot.players[(i : ℕ)]? = some p ∧ (i : ℕ) = p.tableSeat :=
    fun i ⟨p, hp, hseat⟩ => ⟨p, hp, hseat.symm⟩
  refine ⟨?_, ?_, ?_⟩
  · rintro i msg ⟨before, o, after, rfl, hsent⟩ k hk
    refine hnames i o (by simp) k ?_
    rcases cases_of_sent hsent with ⟨ev, shown, rfl, hshown, rfl⟩ | ⟨d, obs, rfl, rfl, rfl⟩
    · rw [handSeatNumbers, seatNumbers_of_seenBy hshown] at hk
      exact hk
    · exact hk
  · rintro i tableId' seat cards ⟨before, o, after, rfl, hsent⟩
    obtain ⟨ev, shown, rfl, hshown, hmsg⟩ | ⟨d, obs, -, -, hmsg⟩ := cases_of_sent hsent
    · obtain ⟨-, rfl⟩ := ServerMessage.tableEvent.inj hmsg
      obtain rfl : (i : ℕ) = seat := own_of_seenBy hshown
      refine hown i (hnames i _ (List.mem_append_right _ List.mem_cons_self) i ?_)
      rw [Output.seatNumbers, ← seatNumbers_of_seenBy hshown]
      exact List.mem_singleton_self _
    · cases hmsg
  · rintro i tableId' handId seat legal deadline ⟨before, o, after, rfl, hsent⟩
    obtain ⟨ev, shown, rfl, hshown, hmsg⟩ | ⟨d, obs, rfl, rfl, hmsg⟩ := cases_of_sent hsent
    · cases hmsg
    · have hposition := hprompts d obs (by simp)
      obtain ⟨-, -, rfl, -, -⟩ := ServerMessage.prompt.inj hmsg
      change ∃ p, _ ∧ obs.position = _
      rw [hposition]
      refine hown d.seat (hnames d.seat _ (List.mem_append_right _ List.mem_cons_self) d.seat ?_)
      rw [Output.seatNumbers, hposition]
      exact List.mem_singleton_self _

/-- When the numbers agree, the hand is played in place: its dealer and its seats
with chips are named. -/
theorem NumbersAgree.playsInPlace
    (h : NumbersAgree snapshot
      (HandSends snapshot.handId deadlineMs (.new tableId snapshot.links) ops))
    (hcards : 2 * fundedSeats snapshot.stacks ≤ 52)
    (hops : ops.filterMap HandOp.output? = (snapshot.run e tableId order answers).1) :
    PlaysInPlace snapshot := by
  intro k p hp hk
  obtain ⟨i, rfl⟩ : ∃ i : Fin snapshot.stacks.length, (i : ℕ) = k := by
    have hget := stacks_getElem? snapshot k
    rw [hp] at hget
    exact ⟨⟨k, (List.getElem?_eq_some_iff.mp hget).1⟩, rfl⟩
  have hplace : snapshot.InPlace i := by
    rcases hk with hdealer | hchips
    · -- every seat is told the dealer
      obtain ⟨tableId', hsends⟩ := @handSends_of_mem _ snapshot.handId deadlineMs
        (.new tableId snapshot.links) i ops _ hops _ handStarted_mem_runHand fun _ => rfl
      exact h.denotes i _ hsends i (List.mem_singleton.mpr hdealer)
    · -- a seat with chips is told its own cards
      have hstack : 0 < snapshot.stacks.get i := by
        obtain ⟨p', hp', hstack⟩ := player_of_seat snapshot i
        obtain rfl := Option.some.inj (hp.symm.trans hp')
        exact hstack ▸ hchips
      obtain ⟨cards, hmem⟩ := holeCardsDealt_mem_runHand hcards hstack
      obtain ⟨tableId', hsends⟩ := @handSends_of_mem _ snapshot.handId deadlineMs
        (.new tableId snapshot.links) i ops _ hops _ hmem fun _ => if_pos rfl
      exact h.denotes i _ hsends i (List.mem_singleton_self _)
  obtain ⟨p', hp', hseat⟩ := hplace
  obtain rfl := Option.some.inj (hp.symm.trans hp')
  exact hseat

end Hand

/-- The dealer of a snapshot is one of its players. -/
theorem dealer_lt {κ : Type*} {inner : TableInner κ m} {config : TableConfig}
    (h : (inner.takeRunningSnapshot config).1.players ≠ []) :
    (inner.takeRunningSnapshot config).1.dealer <
      (inner.takeRunningSnapshot config).1.players.length := by
  have hpos := List.length_pos_iff.mpr h
  simp only [TableInner.takeRunningSnapshot] at hpos ⊢
  cases hfound : (inner.eligible config).findIdx? fun p => inner.button ≤ p.tableSeat with
  | none => exact hpos
  | some k => exact (List.findIdx?_eq_some_iff_findIdx_eq.mp hfound).1

/-- For every layout of a table and every hand that the deck has the cards for: the
seat numbers that the hand sends are those of the table exactly if its dealer and its
seats with chips have the same numbers in the hand and at the table. -/
theorem numbersAgree_iff (e : Engine) (tableId deadlineMs : ℕ) (order : Fin 52 → Card)
    (config : TableConfig) (inner : TableInner SeatLink m) (answers : List Action)
    (ops : List (HandOp (inner.takeRunningSnapshot config).1.stacks.length))
    (hcards : 2 * fundedSeats (inner.takeRunningSnapshot config).1.stacks ≤ 52)
    (hops : ops.filterMap HandOp.output? =
      ((inner.takeRunningSnapshot config).1.run e tableId order answers).1) :
    NumbersAgree (inner.takeRunningSnapshot config).1
        (HandSends inner.nextHandId deadlineMs
          (.new tableId (inner.takeRunningSnapshot config).1.links) ops) ↔
      PlaysInPlace (inner.takeRunningSnapshot config).1 :=
  ⟨fun h => h.playsInPlace hcards hops, fun h => h.agree dealer_lt hops⟩

theorem playsInPlace_of_map {κ : Type*} {snapshot : RunningSnapshot κ m}
    (h : snapshot.players.map (fun p => (p.tableSeat : ℕ)) =
      List.range snapshot.players.length) : PlaysInPlace snapshot := by
  intro k p hp _
  have hlt : k < snapshot.players.length := (List.getElem?_eq_some_iff.mp hp).1
  have hk : (snapshot.players.map fun p => (p.tableSeat : ℕ))[k]? = some k := by
    rw [h]
    exact List.getElem?_range hlt
  rw [List.getElem?_map, hp] at hk
  exact Option.some.inj hk

theorem filterMap_output? (outputs : List (Output n)) :
    (outputs.map HandOp.output).filterMap HandOp.output? = outputs := by
  rw [List.filterMap_map]
  exact List.filterMap_some

section Example

/-- A link to a connection of a player. -/
def linkOf (playerId : ℕ) : SeatLink := .new (.new playerId "" playerId)

def threeSeats : TableConfig := ⟨3, 2, 2, 15000⟩

def plainEngine : Engine := ⟨⟨.noLimit, 1, 2, 0⟩, ⟨fun _ => 0⟩⟩

/-- Two players at the first seats of a table of three. -/
def lowestSeats : TableInner SeatLink 3 :=
  ⟨fun i => if i = 2 then none else some ⟨i + 1, "", 100, linkOf (i + 1), false⟩, 0, 1, false⟩

/-- At the first two seats, the numbers agree. -/
theorem numbersAgree_lowestSeats :
    NumbersAgree (lowestSeats.takeRunningSnapshot threeSeats).1
      (HandSends 1 15000
        (.new 7 (lowestSeats.takeRunningSnapshot threeSeats).1.links)
        (((lowestSeats.takeRunningSnapshot threeSeats).1.run plainEngine 7 Card.mk
          []).1.map .output)) :=
  (numbersAgree_iff plainEngine 7 15000 Card.mk threeSeats lowestSeats [] _ (by decide)
    (filterMap_output? _)).mpr (playsInPlace_of_map (by decide))

/-- Players 1, 2 and 3 sit down at a table of three, and player 1 leaves. -/
def vacateLowest : List (TableOp SeatLink) :=
  [.sit 1 "" (linkOf 1) 100, .sit 2 "" (linkOf 2) 100, .sit 3 "" (linkOf 3) 100, .leave 1]

/-- The table after these operations. -/
def afterVacating : Option (TableActor SeatLink 3) :=
  vacateLowest.foldlM
    (TableActor.step plainEngine (fun link => link.current.sessionId) 7 threeSeats) .new

/-- Once the lowest seat was vacated, the players at seats 1 and 2 play as seats 0
and 1, and are told so. -/
theorem numbers_disagree : ∃ a, afterVacating = some a ∧
    ¬ NumbersAgree (a.inner.takeRunningSnapshot threeSeats).1
      (HandSends a.inner.nextHandId 15000
        (.new 7 (a.inner.takeRunningSnapshot threeSeats).1.links)
        (((a.inner.takeRunningSnapshot threeSeats).1.run plainEngine 7 Card.mk
          []).1.map .output)) := by
  have hplayers : afterVacating.map (fun a =>
      (a.inner.takeRunningSnapshot threeSeats).1.players.map fun p =>
        ((p.tableSeat : ℕ), p.stack)) = some [(1, 100), (2, 100)] := by decide
  obtain ⟨a, ha, hplayers⟩ := Option.map_eq_some_iff.mp hplayers
  refine ⟨a, ha, fun hagree => ?_⟩
  have hstacks : (a.inner.takeRunningSnapshot threeSeats).1.stacks = [100, 100] := by
    have := congrArg (List.map Prod.snd) hplayers
    rwa [List.map_map] at this
  have hplace := hagree.playsInPlace (by rw [hstacks]; decide) (filterMap_output? _)
  have hfirst := congrArg (fun seats => seats[0]?) hplayers
  simp only [List.getElem?_map, Option.map_eq_some_iff, List.getElem?_cons_zero] at hfirst
  obtain ⟨p, hp, hseat⟩ := hfirst
  obtain ⟨hone, hchips⟩ := Prod.mk.inj hseat
  have hzero := hplace 0 p hp (Or.inr (by omega))
  omega

end Example

end VibePoker.Server
