import VibePoker.Server.Requests

/-!
# The departed flag

A refused `LeaveTable` is to change nothing, and a player that leaves a table and joins
one is to be asked again. The flag of the connection is set before the table is looked
at, and nothing takes it back: a run has these properties exactly if no player leaves a
table it has no seat at, and none is asked after it left and joined.

## Main definitions

* `FollowsSeat` — the flag follows the seat
* `LeavesOnce` — the requests that do not show that it does not

## Main results

* `followsSeat_iff`
-/

namespace VibePoker.Server

open VibePoker.Game VibePoker.Net

namespace Desk

/-! ## The statement -/

/-- The player left a table, and joined this one later, and has left none since. -/
def Rejoined (sent : List ServerMessage) (tableId : ℕ) : Prop :=
  ∃ before seat seats after, sent = before ++ .joinedTable tableId seat seats :: after ∧
    (∃ t, .leftTable t ∈ before) ∧ ∀ t, .leftTable t ∉ after

/-- A request leaves the flag, the open prompt and the server alone. -/
structure Unaffected (s t : Desk) : Prop where
  departed : t.connection.departed = s.connection.departed
  pending : t.connection.pending = s.connection.pending
  server : t.server = s.server

/-- The player is asked. -/
structure Prompted (s t : Desk) (p : PendingAction) (deadlineMs : ℕ) : Prop where
  pending : t.connection.pending = some p
  sent : t.connection.sent = s.connection.sent ++ [p.prompt deadlineMs]

/-- A refused leave changes nothing, and who left and joined is asked again. -/
structure FollowsSeat (s : Desk) (requests : List TableRequest) : Prop where
  refused : ∀ before tableId after reason, requests = before ++ .leaveTable tableId :: after →
    ((s.run before).handle (.leaveTable tableId)).connection.sent =
      (s.run before).connection.sent ++ [.actionRejected reason] →
    Unaffected (s.run before) ((s.run before).handle (.leaveTable tableId))
  asked : ∀ before p deadlineMs after, requests = before ++ .act p deadlineMs :: after →
    Rejoined (s.run before).connection.sent p.tableId →
    Prompted (s.run before) ((s.run before).handle (.act p deadlineMs)) p deadlineMs

/-- A player leaves unknown tables and tables where it sits, or has no prompt and has left
before; and it is not asked at a table that it joined after it left one. -/
structure LeavesOnce (s : Desk) (requests : List TableRequest) : Prop where
  leaves : ∀ before tableId after, requests = before ++ .leaveTable tableId :: after →
    (s.run before).server.tables tableId = none ∨ (s.run before).seatedAt tableId = true ∨
      (s.run before).connection.departed = true ∧ (s.run before).connection.pending = none
  asked : ∀ before p deadlineMs after, requests = before ++ .act p deadlineMs :: after →
    ¬ Rejoined (s.run before).connection.sent p.tableId

/-! ## One request -/

section Steps

variable {s : Desk}

/-- A refused leave changes nothing if there is no such table, or nothing to change. -/
theorem unaffected_of_refused {tableId : ℕ} {reason : String}
    (h : s.server.tables tableId = none ∨ s.seatedAt tableId = true ∨
      s.connection.departed = true ∧ s.connection.pending = none)
    (hrefused : (s.handle (.leaveTable tableId)).connection.sent =
      s.connection.sent ++ [.actionRejected reason]) :
    Unaffected s (s.handle (.leaveTable tableId)) := by
  rw [handle] at hrefused ⊢
  have hcase := leaveCase s tableId
  generalize s.handleLeave tableId = t at hcase hrefused ⊢
  cases hcase with
  | unknown => exact ⟨rfl, rfl, rfl⟩
  | refused htable hseat =>
    rcases h with hnone | hseated | ⟨hdeparted, hpending⟩
    · exact absurd hnone htable
    · cases hseat.symm.trans hseated
    · exact ⟨hdeparted.symm, hpending.symm, rfl⟩
  | granted =>
    -- the answer to a granted leave is another one
    have hlast := List.append_cancel_left hrefused
    cases hlast

/-- At a table where the player has no seat, a leave is refused after the flag is set. -/
theorem handleLeave_refused {tableId : ℕ} (htable : s.server.tables tableId ≠ none)
    (hseat : s.seatedAt tableId = false) :
    ∃ reason, (s.handle (.leaveTable tableId)).connection.sent =
        s.connection.sent ++ [.actionRejected reason] ∧
      (s.handle (.leaveTable tableId)).connection.departed = true ∧
      (s.handle (.leaveTable tableId)).connection.pending = none := by
  rw [handle]
  have hcase := leaveCase s tableId
  generalize s.handleLeave tableId = t at hcase ⊢
  cases hcase with
  | unknown hnone => exact absurd hnone htable
  | refused _ _ reason => exact ⟨reason, rfl, rfl, rfl⟩
  | granted hseated => cases hseat.symm.trans hseated

/-- A departed connection is not asked. -/
theorem not_prompted_of_departed (h : s.connection.departed = true) (p : PendingAction)
    (deadlineMs : ℕ) : ¬ Prompted s (s.handle (.act p deadlineMs)) p deadlineMs := by
  intro hprompted
  have hsent := hprompted.sent
  have hsame : (s.handle (.act p deadlineMs)).connection = s.connection := by
    simp only [handle, SeatLink.ask, SeatLink.new, h, if_true]
  rw [hsame] at hsent
  exact absurd (congrArg List.length hsent) (by simp)

/-- Who was told that it left has departed. -/
def Departs (s : Desk) : Prop := ∀ t, .leftTable t ∈ s.connection.sent → s.connection.departed = true

theorem Departs.trySend (h : Departs s) {msg : ServerMessage} (hmsg : ∀ t, msg ≠ .leftTable t) :
    Departs (s.trySend msg) := by
  intro t hmem
  rcases List.mem_append.mp hmem with hmem | hmem
  · exact h t hmem
  · exact absurd (List.mem_singleton.mp hmem).symm (hmsg t)

theorem Departs.handle (h : Departs s) (r : TableRequest) : Departs (s.handle r) := by
  cases r with
  | joinTable tableId buyIn =>
    rw [Desk.handle, handleJoin]
    split
    · exact h.trySend (by simp)
    · split
      · exact h.trySend (by simp)
      · split
        · exact Departs.trySend (s := { s with server := _ }) h (by simp)
        · exact h.trySend (by simp)
  | leaveTable tableId =>
    rw [Desk.handle]
    have hcase := leaveCase s tableId
    generalize s.handleLeave tableId = t at hcase ⊢
    cases hcase with
    | unknown => exact h.trySend (by simp)
    | refused | granted => exact fun _ _ => rfl
  | submitAction tableId handId action =>
    rw [Desk.handle]
    split
    · rename_i c action' hdelivered
      rw [Connection.deliverAction_eq_some hdelivered]
      exact h
    · exact h.trySend (by simp)
  | act p deadlineMs =>
    rw [Desk.handle, SeatLink.ask]
    split
    · exact h
    · exact Departs.trySend (s := { s with connection := { s.connection with pending := some p } }) h
        (by simp [PendingAction.prompt])
  | expire => exact h
  | elsewhere => exact h

theorem departs_run (h : Departs s) (requests : List TableRequest) : Departs (s.run requests) := by
  induction requests generalizing s with
  | nil => exact h
  | cons r requests ih => exact ih (h.handle r)

end Steps

/-! ## The main result -/

/-- The flag follows the seat exactly in the runs that do not show that it does not. -/
theorem followsSeat_iff (conn playerId : ℕ) (username : String) (sessionId : ℤ)
    (migrated : Option PendingAction) (server : ServerState) (requests : List TableRequest) :
    FollowsSeat (start conn playerId username sessionId migrated server) requests ↔
      LeavesOnce (start conn playerId username sessionId migrated server) requests := by
  generalize hstart : start conn playerId username sessionId migrated server = s
  have hdeparts : Departs s := by
    subst hstart
    exact nofun
  constructor
  · intro h
    constructor
    · intro before tableId after hrequests
      by_contra hnot
      simp only [not_or, not_and, Bool.not_eq_true] at hnot
      obtain ⟨htable, hseat, hslot⟩ := hnot
      obtain ⟨reason, hsent, hdeparted, hpending⟩ := handleLeave_refused htable hseat
      have hsame := h.refused before tableId after reason hrequests hsent
      exact hslot (hsame.departed.symm.trans hdeparted) (hsame.pending.symm.trans hpending)
    · intro before p deadlineMs after hrequests hrejoined
      have hprompted := h.asked before p deadlineMs after hrequests hrejoined
      obtain ⟨earlier, seat, seats, later, hsent, ⟨t, ht⟩, -⟩ := hrejoined
      refine not_prompted_of_departed (departs_run hdeparts before t ?_) p deadlineMs hprompted
      rw [hsent]
      exact List.mem_append_left _ ht
  · intro h
    constructor
    · intro before tableId after reason hrequests hrefused
      exact unaffected_of_refused (h.leaves before tableId after hrequests) hrefused
    · intro before p deadlineMs after hrequests hrejoined
      exact absurd hrejoined (h.asked before p deadlineMs after hrequests)

/-- Two tables for two, with blinds of 1 and 2. -/
def twoTables : ServerState :=
  .new fun tableId => if tableId = 1 ∨ tableId = 2 then some ⟨2, 2, 2, 30000⟩ else none

/-- A player at table 1 asks to leave table 2; another one leaves table 1, joins table 2 and
is not asked there. -/
theorem not_followsSeat :
    ¬ FollowsSeat (start 0 7 "alice" 1 none twoTables) [.joinTable 1 200, .leaveTable 2] ∧
      ¬ FollowsSeat (start 0 7 "alice" 1 none twoTables)
        [.joinTable 1 200, .leaveTable 1, .joinTable 2 200,
          .act ⟨2, 1, 0, ⟨true, false, 0, true, 4, 200, 198⟩⟩ 30000] := by
  constructor
  · intro h
    have hsame := h.refused [.joinTable 1 200] 2 [] "not seated at this table" rfl rfl
    exact absurd hsame.departed (by decide)
  · intro h
    have hasked := h.asked [.joinTable 1 200, .leaveTable 1, .joinTable 2 200] _ _ [] rfl
      ⟨_, _, _, [], rfl, ⟨1, List.mem_append_right _ List.mem_cons_self⟩, nofun⟩
    exact absurd hasked.pending (by decide)

end Desk

end VibePoker.Server
