import VibePoker.Server.Seats
import VibePoker.Server.Session

/-!
# Who holds which seat

A player holds a seat if it is its own and not about to be given up. For each
operation of a table, and each section of a session's task that changes the tables:
what it does to the seats that are held.

## Main definitions

* `TableInner.Holds`, `ServerState.Holds` — the seats that a player holds
* `ServerState.WellFormed` — what every run keeps

## Main results

* `ServerState.WellFormed.step` — every step keeps the state well formed
-/

namespace VibePoker.Server

open VibePoker.Core VibePoker.Game VibePoker.Net

/-! ## Tables -/

namespace TableInner

variable {κ : Type*} {m : ℕ} {inner inner' : TableInner κ m} {config : TableConfig}
  {playerId q : ℕ} {i j : Fin m} {l : κ}

/-- Seat `i` belongs to the player, who is not leaving. -/
def Holds (inner : TableInner κ m) (playerId : ℕ) (i : Fin m) (l : κ) : Prop :=
  ∃ seat, inner.seats i = some seat ∧ seat.playerId = playerId ∧ seat.leavePending = false ∧
    seat.link = l

/-- Every player has at most one seat, leaving or not. -/
def OneSeatEach (inner : TableInner κ m) : Prop :=
  ∀ i j a b, inner.seats i = some a → inner.seats j = some b → a.playerId = b.playerId → i = j

/-- Every seat was there before, with the same player and link, and leaving if it was. -/
def Within (inner' inner : TableInner κ m) : Prop :=
  ∀ i seat', inner'.seats i = some seat' → ∃ seat, inner.seats i = some seat ∧
    seat'.playerId = seat.playerId ∧ seat'.link = seat.link ∧
    (seat'.leavePending = false → seat.leavePending = false)

theorem Within.refl : inner.Within inner :=
  fun _ seat hseat => ⟨seat, hseat, rfl, rfl, id⟩

theorem Within.holds (h : inner'.Within inner) (hholds : inner'.Holds playerId i l) :
    inner.Holds playerId i l := by
  obtain ⟨seat', hseat', rfl, hstays, rfl⟩ := hholds
  obtain ⟨seat, hseat, hplayer, hlink, hleaving⟩ := h i seat' hseat'
  exact ⟨seat, hseat, hplayer.symm, hleaving hstays, hlink.symm⟩

theorem OneSeatEach.within (h : inner.OneSeatEach) (hwithin : inner'.Within inner) :
    inner'.OneSeatEach := by
  intro i j a b ha hb heq
  obtain ⟨a', ha', hplayer, -⟩ := hwithin i a ha
  obtain ⟨b', hb', hplayer', -⟩ := hwithin j b hb
  exact h i j a' b' ha' hb' (hplayer.symm.trans (heq.trans hplayer'))

/-- The seat that is found for a player who holds one is that one. -/
theorem OneSeatEach.seatOf (h : inner.OneSeatEach) (hholds : inner.Holds playerId i l) :
    inner.seatOf playerId = some i := by
  obtain ⟨seat, hseat, hplayer, -⟩ := hholds
  cases hfound : inner.seatOf playerId with
  | none => exact absurd hplayer (seatOf_eq_none hfound hseat)
  | some j =>
    obtain ⟨other, hother, hplayer'⟩ := seatOf_eq_some hfound
    rw [h j i other seat hother hseat (hplayer'.trans hplayer.symm)]

/-! ### What the operations do -/

theorem release_within : (inner.release i).Within inner := by
  intro j seat' hseat'
  obtain ⟨seat, hseat, rfl | ⟨-, rfl⟩⟩ := release_seats hseat'
  · exact ⟨seat', hseat, rfl, rfl, id⟩
  · exact ⟨seat, hseat, rfl, rfl, fun hstays => by cases hstays⟩

/-- A player whose seat is released holds none, and the others keep theirs. -/
theorem OneSeatEach.holds_release (h : inner.OneSeatEach)
    (hfound : inner.seatOf playerId = some i) :
    (inner.release i).Holds q j l ↔ inner.Holds q j l ∧ q ≠ playerId := by
  obtain ⟨seat, hseat, hplayer⟩ := seatOf_eq_some hfound
  constructor
  · intro hholds
    refine ⟨release_within.holds hholds, ?_⟩
    rintro rfl
    have hj : j = i :=
      Option.some.inj ((h.seatOf (release_within.holds hholds)).symm.trans hfound)
    subst hj
    obtain ⟨seat', hseat', -, hstays, -⟩ := hholds
    rw [release_seats_self, hseat] at hseat'
    split at hseat'
    · obtain rfl := Option.some.inj hseat'
      cases hstays
    · cases hseat'
  · rintro ⟨⟨other, hother, hq, hrest⟩, hne⟩
    have hji : j ≠ i := by
      rintro rfl
      obtain rfl := Option.some.inj (hother.symm.trans hseat)
      exact hne (hq.symm.trans hplayer)
    exact ⟨other, (release_seats_of_ne hji).trans hother, hq, hrest⟩

/-- `force_leave` takes the seat if its link leads to the session. -/
theorem OneSeatEach.holds_forceLeave (h : inner.OneSeatEach) (sessionOf : κ → ℤ) (sid : ℤ) :
    (inner.forceLeave sessionOf playerId (some sid)).Holds q j l ↔
      inner.Holds q j l ∧ ¬(q = playerId ∧ sessionOf l = sid) := by
  unfold forceLeave
  split
  · rename_i hnone
    refine (and_iff_left_of_imp fun hholds => ?_).symm
    rintro ⟨rfl, -⟩
    cases hnone.symm.trans (h.seatOf hholds)
  · rename_i i hi
    obtain ⟨seat, hseat, -⟩ := seatOf_eq_some hi
    -- a seat that the player holds is this one
    have hlink : inner.Holds playerId j l → l = seat.link := by
      intro hholds
      obtain rfl := Option.some.inj (hi.symm.trans (h.seatOf hholds))
      obtain ⟨other, hother, -, -, rfl⟩ := hholds
      rw [Option.some.inj (hother.symm.trans hseat)]
    rw [hseat]
    by_cases hsid : sessionOf seat.link = sid
    · simp only [ne_eq, hsid, not_true_eq_false, if_false]
      rw [h.holds_release hi]
      refine and_congr_right fun hholds => ⟨fun hne heq => hne heq.1, ?_⟩
      rintro hne rfl
      exact hne ⟨rfl, hlink hholds ▸ hsid⟩
    · simp only [ne_eq, hsid, not_false_eq_true, if_true]
      refine (and_iff_left_of_imp fun hholds => ?_).symm
      rintro ⟨rfl, hsid'⟩
      exact hsid (hlink hholds ▸ hsid')

theorem OneSeatEach.sit {username : String} {link : κ} {buyIn : ℕ} (h : inner.OneSeatEach)
    (hsit : inner.sit config playerId username link buyIn = .ok (i, inner')) :
    inner'.OneSeatEach := by
  obtain ⟨-, hunseated, -, rfl⟩ := sit_eq_ok hsit
  intro j k a b ha hb heq
  by_cases hj : j = i
  · by_cases hk : k = i
    · exact hj.trans hk.symm
    · subst hj
      rw [setSeat_seats_self] at ha
      rw [setSeat_seats_of_ne _ hk] at hb
      obtain rfl := Option.some.inj ha
      exact absurd heq.symm (hunseated k b hb)
  · rw [setSeat_seats_of_ne _ hj] at ha
    by_cases hk : k = i
    · subst hk
      rw [setSeat_seats_self] at hb
      obtain rfl := Option.some.inj hb
      exact absurd heq (hunseated j a ha)
    · rw [setSeat_seats_of_ne _ hk] at hb
      exact h j k a b ha hb heq

/-- The only new seat is that of the player who sits down. -/
theorem sit_seats {username : String} {link : κ} {buyIn : ℕ} {seat : Seat κ}
    (hsit : inner.sit config playerId username link buyIn = .ok (i, inner'))
    (hseat : inner'.seats j = some seat) :
    inner.seats j = some seat ∨ (seat.playerId = playerId ∧ seat.link = link) := by
  obtain ⟨-, -, -, rfl⟩ := sit_eq_ok hsit
  by_cases hj : j = i
  · subst hj
    rw [setSeat_seats_self] at hseat
    obtain rfl := Option.some.inj hseat
    exact Or.inr ⟨rfl, rfl⟩
  · rw [setSeat_seats_of_ne _ hj] at hseat
    exact Or.inl hseat

/-- Sitting down adds the new seat. -/
theorem holds_sit {username : String} {link : κ} {buyIn : ℕ}
    (hsit : inner.sit config playerId username link buyIn = .ok (i, inner')) :
    inner'.Holds q j l ↔ inner.Holds q j l ∨ (q = playerId ∧ j = i ∧ l = link) := by
  obtain ⟨-, -, hfree, rfl⟩ := sit_eq_ok hsit
  by_cases hj : j = i
  · subst hj
    simp only [Holds, setSeat_seats_self, hfree]
    grind
  · simp only [Holds, setSeat_seats_of_ne _ hj, hj, false_and, and_false, or_false]

/-- The result of a hand takes the last chips of a player who stays. -/
def Busts (inner : TableInner κ m) (result : HandResult) (playerId : ℕ) : Prop :=
  ∃ i, ∃ seat ∈ applyDeltas inner.seats result.seats i, seat.playerId = playerId ∧
    seat.leavePending = false ∧ seat.stack = 0

theorem applyHandResult_within {result : HandResult} :
    (inner.applyHandResult result).Within inner := by
  intro i seat' hseat'
  obtain ⟨hafter, -, -⟩ := applyHandResult_seats.mp hseat'
  obtain ⟨stack, hstack⟩ := @applyDeltas_map κ m i inner.seats result.seats
  rw [hstack] at hafter
  obtain ⟨seat, hseat, rfl⟩ := Option.map_eq_some_iff.mp hafter
  exact ⟨seat, hseat, rfl, rfl, id⟩

/-- Who is not busted keeps the seat. -/
theorem Holds.applyHandResult {result : HandResult} (h : inner.Holds q i l) :
    (inner.applyHandResult result).Holds q i l ∨ inner.Busts result q := by
  obtain ⟨seat, hseat, hplayer, hstays, hlink⟩ := h
  obtain ⟨stack, hstack⟩ := @applyDeltas_map κ m i inner.seats result.seats
  rw [hseat, Option.map_some] at hstack
  by_cases hchips : stack seat = 0
  · exact Or.inr ⟨i, _, hstack, hplayer, hstays, hchips⟩
  · exact Or.inl ⟨_, applyHandResult_seats.mpr ⟨hstack, hstays, hchips⟩, hplayer, hstays, hlink⟩

end TableInner

/-- The actor changes the seats only at the end of a hand. -/
theorem TableActor.advance_seats {κ : Type*} {m : ℕ} {e : Engine} {tableId : ℕ}
    {config : TableConfig} {a b : TableActor κ m} {op : ActorOp}
    (h : a.advance e tableId config op = some b) :
    b.inner.seats = a.inner.seats ∨
      ∃ order answers snapshot, op = .finish order answers ∧ a.phase = .playing snapshot ∧
        ∃ result ∈ runOneHand e tableId order snapshot answers,
          b.inner = a.inner.applyHandResult result := by
  cases actorStep_of_advance h with
  | claimed | lost | began | resumed => exact Or.inl rfl
  | @finished order answers snapshot result hplaying hresult =>
    exact Or.inr ⟨order, answers, snapshot, rfl, hplaying, result, hresult, rfl⟩

theorem TableActor.advance_within {κ : Type*} {m : ℕ} {e : Engine} {tableId : ℕ}
    {config : TableConfig} {a b : TableActor κ m} {op : ActorOp}
    (h : a.advance e tableId config op = some b) : b.inner.Within a.inner := by
  obtain hseats | ⟨-, -, -, -, -, result, -, hresult⟩ := advance_seats h
  · intro i seat hseat
    exact ⟨seat, hseats ▸ hseat, rfl, rfl, id⟩
  · exact hresult ▸ TableInner.applyHandResult_within

/-! ## The server -/

namespace ServerState

variable {s s' : ServerState} {conn q t : ℕ} {session : Session} {phase : TaskPhase}

/-- Seat `i` of the table belongs to the player, who is not leaving; `l` is its link. -/
def Holds (s : ServerState) (playerId tableId i l : ℕ) : Prop :=
  ∃ table, s.tables tableId = some table ∧
    ∃ h : i < table.config.maxSeats, table.inner.Holds playerId ⟨i, h⟩ l

/-- `owner` says whose link a link is: of the player at its seat, and of the session
that is about to bind it. -/
structure LinksOwned (s : ServerState) (owner : ℕ → ℕ) : Prop where
  seat : ∀ t table i seat, s.tables t = some table → table.inner.seats i = some seat →
    seat.link < s.nextLink ∧ owner seat.link = seat.playerId
  splicing : ∀ conn session l, s.sessions conn = some session → session.phase = .splicing l →
    l < s.nextLink ∧ owner l = session.playerId

/-- What every run keeps, whatever the players do. -/
structure WellFormed (s : ServerState) : Prop where
  oneSeatEach : ∀ t table, s.tables t = some table → table.inner.OneSeatEach
  owned : ∃ owner, s.LinksOwned owner
  online : ∀ p conn, s.online p = some conn → ∃ session, s.sessions conn = some session ∧
    session.playerId = p

theorem Holds.unique (h : s.WellFormed) {p t i l i' l' : ℕ} (hholds : s.Holds p t i l)
    (hholds' : s.Holds p t i' l') : i = i' ∧ l = l' := by
  obtain ⟨table, htable, hi, seat, hseat, hplayer, -, rfl⟩ := hholds
  obtain ⟨table', htable', hi', seat', hseat', hplayer', -, rfl⟩ := hholds'
  obtain rfl := Option.some.inj (htable.symm.trans htable')
  have heq := h.oneSeatEach t table htable ⟨i, hi⟩ ⟨i', hi'⟩ seat seat' hseat hseat'
    (hplayer.trans hplayer'.symm)
  obtain rfl := Fin.mk.inj heq
  obtain rfl := Option.some.inj (hseat.symm.trans hseat')
  exact ⟨rfl, rfl⟩

theorem LinksOwned.holds {owner : ℕ → ℕ} (h : s.LinksOwned owner) {p t i l : ℕ}
    (hholds : s.Holds p t i l) : l < s.nextLink ∧ owner l = p := by
  obtain ⟨table, htable, hi, seat, hseat, hplayer, -, rfl⟩ := hholds
  exact hplayer ▸ h.seat t table ⟨i, hi⟩ seat htable hseat

@[simp] theorem setSession_self : (s.setSession conn session).sessions conn = some session :=
  Function.update_self ..

theorem setSession_of_ne {c : ℕ} (h : c ≠ conn) :
    (s.setSession conn session).sessions c = s.sessions c :=
  Function.update_of_ne h ..

@[simp] theorem setTable_self {table : Table} : (s.setTable t table).tables t = some table :=
  Function.update_self ..

theorem setTable_of_ne {table : Table} {u : ℕ} (h : u ≠ t) :
    (s.setTable t table).tables u = s.tables u :=
  Function.update_of_ne h ..

/-! ### Well-formed states -/

theorem WellFormed.new (configs : ℕ → Option TableConfig) :
    (ServerState.new configs).WellFormed where
  oneSeatEach t table htable i j a b ha hb heq := by
    obtain ⟨config, -, rfl⟩ := Option.map_eq_some_iff.mp htable
    cases ha
  owned := by
    refine ⟨fun _ => 0, ?_, ?_⟩
    · intro t table i seat htable hseat
      obtain ⟨config, -, rfl⟩ := Option.map_eq_some_iff.mp htable
      cases hseat
    · intro conn session l hconn
      cases hconn
  online p conn honline := by cases honline

/-- Sessions may come and change, if they keep their players and no new link is
spliced. -/
theorem WellFormed.setSession (h : s.WellFormed) (hold : ∀ before, s.sessions conn = some before →
      before.playerId = session.playerId)
    (hsplicing : ∀ owner, s.LinksOwned owner → ∀ l, session.phase = .splicing l →
      l < s.nextLink ∧ owner l = session.playerId) :
    (s.setSession conn session).WellFormed where
  oneSeatEach := h.oneSeatEach
  owned := by
    obtain ⟨owner, howner⟩ := h.owned
    refine ⟨owner, howner.seat, ?_⟩
    intro c other l hother hphase
    by_cases hc : c = conn
    · subst hc
      obtain rfl := Option.some.inj (setSession_self.symm.trans hother)
      exact hsplicing owner howner l hphase
    · exact howner.splicing c other l ((setSession_of_ne hc).symm.trans hother) hphase
  online p c honline := by
    obtain ⟨other, hother, hplayer⟩ := h.online p c honline
    by_cases hc : c = conn
    · subst hc
      exact ⟨session, setSession_self, (hold other hother).symm.trans hplayer⟩
    · exact ⟨other, (setSession_of_ne hc).trans hother, hplayer⟩

/-- Only `found` sets a session to work on a link. -/
theorem WellFormed.goto (h : s.WellFormed) (hconn : s.sessions conn = some session)
    (hphase : ∀ l, phase ≠ .splicing l) : (s.goto conn session phase).WellFormed := by
  refine h.setSession (fun before hbefore => ?_) (fun owner _ l hl => absurd hl (hphase l))
  rw [Option.some.inj (hbefore.symm.trans hconn)]

/-- The seats of a table may lose players. -/
theorem WellFormed.setActor (h : s.WellFormed) {table : Table} (htable : s.tables t = some table)
    {actor : TableActor ℕ table.config.maxSeats} (hwithin : actor.inner.Within table.inner) :
    (s.setTable t { table with actor := actor }).WellFormed where
  oneSeatEach u other hother := by
    by_cases hu : u = t
    · subst hu
      obtain rfl := Option.some.inj (setTable_self.symm.trans hother)
      exact (h.oneSeatEach u table htable).within hwithin
    · exact h.oneSeatEach u other ((setTable_of_ne hu).symm.trans hother)
  owned := by
    obtain ⟨owner, howner⟩ := h.owned
    refine ⟨owner, ?_, howner.splicing⟩
    intro u other i seat hother hseat
    by_cases hu : u = t
    · subst hu
      obtain rfl := Option.some.inj (setTable_self.symm.trans hother)
      obtain ⟨before, hbefore, hplayer, hlink, -⟩ := hwithin i seat hseat
      exact hlink ▸ hplayer ▸ howner.seat u table i before htable hbefore
    · exact howner.seat u other i seat ((setTable_of_ne hu).symm.trans hother) hseat
  online := h.online

theorem leave_eq_some {p : ℕ} (hleave : s.leave p t = some s') :
    ∃ table inner, s.tables t = some table ∧ table.inner.leave p = .ok inner ∧
      s' = s.setTable t (table.setInner inner) := by
  unfold leave at hleave
  split at hleave
  · cases hleave
  · rename_i table htable
    split at hleave
    · cases hleave
    · rename_i inner hinner
      exact ⟨table, inner, htable, hinner, (Option.some.inj hleave).symm⟩

theorem sit_eq_some {buyIn : ℕ} (hsit : s.sit conn session t buyIn = some s') :
    ∃ table i inner, s.tables t = some table ∧
      table.inner.sit table.config session.playerId session.username s.nextLink buyIn =
        .ok (i, inner) ∧
      s' = { s.setTable t (table.setInner inner) with
        links := Function.update s.links s.nextLink conn
        nextLink := s.nextLink + 1 } := by
  unfold sit at hsit
  split at hsit
  · cases hsit
  · rename_i table htable
    split at hsit
    · cases hsit
    · rename_i i inner hinner
      exact ⟨table, i, inner, htable, hinner, (Option.some.inj hsit).symm⟩

/-- `force_leave` releases the player's seat, or does nothing. -/
theorem forceLeave_cases (s : ServerState) (session : Session) (t : ℕ) :
    s.forceLeave session t = s ∨ ∃ table i, s.tables t = some table ∧
      table.inner.seatOf session.playerId = some i ∧
      s.forceLeave session t = s.setTable t (table.setInner (table.inner.release i)) := by
  unfold forceLeave
  split
  · exact Or.inl rfl
  · rename_i table htable
    obtain hsame | ⟨i, -, hi, -, -, hrelease⟩ := table.inner.forceLeave_cases
      (fun link => (s.sessionId (s.links link)).getD 0) session.playerId (some session.sessionId)
    · left
      rw [hsame]
      exact congrArg (fun tables => { s with tables := tables })
        (Function.update_eq_self_iff.mpr htable.symm)
    · exact Or.inr ⟨table, i, htable, hi, by rw [hrelease]⟩

theorem WellFormed.leave (h : s.WellFormed) {p : ℕ} (hleave : s.leave p t = some s') :
    s'.WellFormed := by
  obtain ⟨table, inner, htable, hinner, rfl⟩ := leave_eq_some hleave
  obtain ⟨i, -, rfl⟩ := TableInner.leave_eq_ok hinner
  exact h.setActor htable TableInner.release_within

theorem WellFormed.forceLeave (h : s.WellFormed) (session : Session) (t : ℕ) :
    (s.forceLeave session t).WellFormed := by
  obtain hsame | ⟨table, i, htable, -, hrelease⟩ := forceLeave_cases s session t
  · rw [hsame]
    exact h
  · rw [hrelease]
    exact h.setActor htable TableInner.release_within

theorem WellFormed.sit (h : s.WellFormed) {buyIn : ℕ}
    (hsit : s.sit conn session t buyIn = some s') : s'.WellFormed := by
  obtain ⟨table, i, inner, htable, hinner, rfl⟩ := sit_eq_some hsit
  refine ⟨?_, ?_, h.online⟩
  · intro u other hother
    by_cases hu : u = t
    · subst hu
      obtain rfl := Option.some.inj (setTable_self.symm.trans hother)
      exact (h.oneSeatEach u table htable).sit hinner
    · exact h.oneSeatEach u other ((setTable_of_ne hu).symm.trans hother)
  · -- the new link belongs to the player who sits down
    obtain ⟨owner, howner⟩ := h.owned
    have hold : ∀ l p, l < s.nextLink ∧ owner l = p → l < s.nextLink + 1 ∧
        Function.update owner s.nextLink session.playerId l = p := by
      intro l p hl
      exact ⟨Nat.lt_succ_of_lt hl.1, (Function.update_of_ne hl.1.ne ..).trans hl.2⟩
    refine ⟨Function.update owner s.nextLink session.playerId, ?_, ?_⟩
    · intro u other j seat hother hseat
      by_cases hu : u = t
      · subst hu
        obtain rfl := Option.some.inj (setTable_self.symm.trans hother)
        obtain hbefore | ⟨hplayer, hlink⟩ := TableInner.sit_seats hinner hseat
        · exact hold _ _ (howner.seat u table j seat htable hbefore)
        · rw [hplayer, hlink]
          exact ⟨Nat.lt_succ_self _, Function.update_self ..⟩
      · exact hold _ _ (howner.seat u other j seat ((setTable_of_ne hu).symm.trans hother) hseat)
    · intro c other l hother hphase
      exact hold _ _ (howner.splicing c other l hother hphase)

theorem seatLink_eq_some {p l : ℕ} (hlink : s.seatLink p t = some l) :
    ∃ table i seat, s.tables t = some table ∧ table.inner.seatOf p = some i ∧
      table.inner.seats i = some seat ∧ seat.playerId = p ∧ seat.link = l := by
  simp only [seatLink, Option.bind_eq_bind, Option.bind_eq_some_iff, Option.some.injEq] at hlink
  obtain ⟨table, htable, i, hi, seat, hseat, hl⟩ := hlink
  obtain ⟨seat', hseat', hplayer⟩ := TableInner.seatOf_eq_some hi
  obtain rfl := Option.some.inj (hseat'.symm.trans hseat)
  exact ⟨table, i, seat', htable, hi, hseat, hplayer, hl⟩

theorem WellFormed.logout (h : s.WellFormed) (conn p : ℕ) : (s.logout conn p).WellFormed := by
  unfold ServerState.logout
  split
  · exact h
  · split
    · refine ⟨h.oneSeatEach, h.owned.imp fun _ howner => ⟨howner.seat, howner.splicing⟩, ?_⟩
      intro q c honline
      by_cases hq : q = p
      · subst hq
        cases (Function.update_self ..).symm.trans honline
      · exact h.online q c ((Function.update_of_ne hq ..).symm.trans honline)
    · exact h

theorem WellFormed.revoke (h : s.WellFormed) (p : ℕ) : (s.revoke p).WellFormed := by
  unfold ServerState.revoke
  split
  · exact h
  · split
    · exact h
    · rename_i prev honline _ session hsession
      refine h.setSession (fun before hbefore => ?_) fun owner howner l hl => ?_
      · rw [Option.some.inj (hbefore.symm.trans hsession)]
      · exact howner.splicing prev session l hsession hl

theorem WellFormed.recordJoin (h : s.WellFormed) (p t : ℕ) : (s.recordJoin p t).WellFormed :=
  ⟨h.oneSeatEach, h.owned.imp fun _ howner => ⟨howner.seat, howner.splicing⟩, h.online⟩

theorem WellFormed.recordLeave (h : s.WellFormed) (p : ℕ) : (s.recordLeave p).WellFormed :=
  ⟨h.oneSeatEach, h.owned.imp fun _ howner => ⟨howner.seat, howner.splicing⟩, h.online⟩

theorem WellFormed.splice (h : s.WellFormed) (l conn : ℕ) :
    WellFormed { s with links := Function.update s.links l conn } :=
  ⟨h.oneSeatEach, h.owned.imp fun _ howner => ⟨howner.seat, howner.splicing⟩, h.online⟩

theorem leave_sessions {p : ℕ} (hleave : s.leave p t = some s') : s'.sessions = s.sessions := by
  obtain ⟨table, inner, -, -, rfl⟩ := leave_eq_some hleave
  rfl

theorem sit_sessions {buyIn : ℕ} (hsit : s.sit conn session t buyIn = some s') :
    s'.sessions = s.sessions := by
  obtain ⟨table, i, inner, -, -, rfl⟩ := sit_eq_some hsit
  rfl

theorem leave_playerTable {p : ℕ} (hleave : s.leave p t = some s') :
    s'.playerTable = s.playerTable := by
  obtain ⟨table, inner, -, -, rfl⟩ := leave_eq_some hleave
  rfl

theorem leave_links {p : ℕ} (hleave : s.leave p t = some s') : s'.links = s.links := by
  obtain ⟨table, inner, -, -, rfl⟩ := leave_eq_some hleave
  rfl

theorem sit_playerTable {buyIn : ℕ} (hsit : s.sit conn session t buyIn = some s') :
    s'.playerTable = s.playerTable := by
  obtain ⟨table, i, inner, -, -, rfl⟩ := sit_eq_some hsit
  rfl

theorem sit_links {buyIn l : ℕ} (hsit : s.sit conn session t buyIn = some s')
    (hl : l < s.nextLink) : s'.links l = s.links l := by
  obtain ⟨table, i, inner, -, -, rfl⟩ := sit_eq_some hsit
  exact Function.update_of_ne hl.ne ..

theorem forceLeave_playerTable : (s.forceLeave session t).playerTable = s.playerTable := by
  unfold forceLeave
  split <;> rfl

theorem forceLeave_links : (s.forceLeave session t).links = s.links := by
  unfold forceLeave
  split <;> rfl

theorem forceLeave_sessions : (s.forceLeave session t).sessions = s.sessions := by
  unfold forceLeave
  split <;> rfl

/-- Logging out touches nothing but the registry. -/
theorem logout_eq (s : ServerState) (conn p : ℕ) :
    ∃ online, s.logout conn p = { s with online := online } := by
  unfold logout
  split
  · exact ⟨s.online, rfl⟩
  · split
    · exact ⟨_, rfl⟩
    · exact ⟨s.online, rfl⟩

theorem logout_sessions {p : ℕ} : (s.logout conn p).sessions = s.sessions := by
  obtain ⟨online, hlogout⟩ := logout_eq s conn p
  rw [hlogout]

theorem WellFormed.advance (h : s.WellFormed) (hconn : s.sessions conn = some session)
    (hstep : SectionStep s conn session s') : s'.WellFormed := by
  cases hstep with
  | seatLink hphase hlink =>
    -- the link that is read belongs to the player
    obtain ⟨table, i, seat, htable, -, hseat, hplayer, rfl⟩ := seatLink_eq_some hlink
    refine h.setSession (fun before hbefore => ?_) fun owner howner l hl => ?_
    · rw [Option.some.inj (hbefore.symm.trans hconn)]
    · obtain rfl := TaskPhase.splicing.inj hl
      exact hplayer ▸ howner.seat _ table i seat htable hseat
  | splice hphase => exact (h.splice _ conn).goto hconn (by simp)
  | sit hphase hsit =>
    exact (h.sit hsit).goto ((congrFun (sit_sessions hsit) conn).trans hconn) (by simp)
  | recordJoin hphase => exact (h.recordJoin _ _).goto hconn (by simp)
  | leave hphase hleave =>
    exact (h.leave hleave).goto ((congrFun (leave_sessions hleave) conn).trans hconn) (by simp)
  | recordLeave hphase => exact (h.recordLeave _).goto hconn (by simp)
  | depart hphase hrecord => exact (h.recordLeave _).goto hconn (by simp)
  | vacate hphase =>
    exact (h.forceLeave _ _).goto ((congrFun forceLeave_sessions conn).trans hconn) (by simp)
  | logOut hphase =>
    exact (h.logout _ _).goto ((congrFun logout_sessions conn).trans hconn) (by simp)
  | lookUp | lookUpNone | seatLinkNone | refuse | accept | sitNone | leaveNone | superseded | kept
  | departNone => exact h.goto hconn (by simp)

/-- A revocation changes one session, which the registry has for the player. -/
theorem revoke_sessions {p c : ℕ} : (s.revoke p).sessions c = s.sessions c ∨
    ∃ session, s.online p = some c ∧ s.sessions c = some session ∧
      (s.revoke p).sessions c = some { session with revoked := true } := by
  unfold revoke
  split
  · exact Or.inl rfl
  · rename_i prev honline
    split
    · exact Or.inl rfl
    · rename_i session hsession
      by_cases hc : c = prev
      · subst hc
        exact Or.inr ⟨session, honline, hsession, setSession_self⟩
      · exact Or.inl (setSession_of_ne hc)

theorem revoke_sessions_none {p c : ℕ} (h : s.sessions c = none) :
    (s.revoke p).sessions c = none := by
  obtain hsame | ⟨session, -, hsession, -⟩ := revoke_sessions (s := s) (p := p) (c := c)
  · exact hsame.trans h
  · cases h.symm.trans hsession

theorem WellFormed.installOnline (h : s.WellFormed) (hfresh : s.sessions conn = none)
    (hphase : ∀ l, session.phase ≠ .splicing l) : (s.installOnline conn session).WellFormed := by
  have hset : ((s.revoke session.playerId).setSession conn session).WellFormed :=
    (h.revoke session.playerId).setSession
      (fun before hbefore => by cases (revoke_sessions_none hfresh).symm.trans hbefore)
      (fun _ _ l hl => absurd hl (hphase l))
  refine ⟨hset.oneSeatEach, hset.owned.imp fun _ howner => ⟨howner.seat, howner.splicing⟩, ?_⟩
  intro q c honline
  change Function.update (s.revoke session.playerId).online session.playerId (some conn) q =
    some c at honline
  by_cases hq : q = session.playerId
  · subst hq
    rw [Function.update_self] at honline
    obtain rfl := Option.some.inj honline
    exact ⟨session, setSession_self, rfl⟩
  · rw [Function.update_of_ne hq] at honline
    exact hset.online q c honline

/-- Every step keeps the state well formed. -/
theorem WellFormed.step {e : ℕ → Engine} {op : ServerOp} (h : s.WellFormed)
    (hstep : s.step e op = some s') : s'.WellFormed := by
  cases step_cases hstep with
  | login playerId username sessionId hfresh => exact h.installOnline hfresh (by simp)
  | receive msg hconn hidle hreads => exact h.goto hconn (by cases hreads <;> simp)
  | hangUp hconn hidle => exact h.goto hconn (by simp)
  | advance hconn hsection => exact h.advance hconn hsection
  | actor htable hactor => exact h.setActor htable (TableActor.advance_within hactor)

/-! ### What the sections do to the seats -/

theorem holds_setActor {table : Table} (actor : TableActor ℕ table.config.maxSeats) {u i l : ℕ} :
    (s.setTable t { table with actor := actor }).Holds q u i l ↔
      if u = t then ∃ h : i < table.config.maxSeats, actor.inner.Holds q ⟨i, h⟩ l
      else s.Holds q u i l := by
  split
  · rename_i hu
    subst hu
    constructor
    · rintro ⟨other, hother, hholds⟩
      obtain rfl := Option.some.inj (setTable_self.symm.trans hother)
      exact hholds
    · intro hholds
      exact ⟨{ table with actor := actor }, setTable_self, hholds⟩
  · rename_i hu
    simp only [Holds, setTable_of_ne hu]

/-- If `inner'` holds what `inner` does except for one player, so does the server. -/
theorem holds_setInner_of_release {table : Table} {p u i l : ℕ}
    {inner : TableInner ℕ table.config.maxSeats} (htable : s.tables t = some table)
    (hinner : ∀ i, inner.Holds q i l ↔ table.inner.Holds q i l ∧ q ≠ p) :
    (s.setTable t (table.setInner inner)).Holds q u i l ↔
      s.Holds q u i l ∧ ¬(q = p ∧ u = t) := by
  refine (holds_setActor { table.actor with inner := inner }).trans ?_
  split
  · rename_i hu
    subst hu
    constructor
    · rintro ⟨hi, hholds⟩
      obtain ⟨hbefore, hne⟩ := (hinner ⟨i, hi⟩).mp hholds
      exact ⟨⟨table, htable, hi, hbefore⟩, fun heq => hne heq.1⟩
    · rintro ⟨⟨other, hother, hi, hholds⟩, hne⟩
      obtain rfl := Option.some.inj (htable.symm.trans hother)
      exact ⟨hi, (hinner ⟨i, hi⟩).mpr ⟨hholds, fun heq => hne ⟨heq, rfl⟩⟩⟩
  · rename_i hu
    simp [hu]

/-- Who leaves a table holds no seat there any more. -/
theorem holds_leave (h : s.WellFormed) {p u i l : ℕ} (hleave : s.leave p t = some s') :
    s'.Holds q u i l ↔ s.Holds q u i l ∧ ¬(q = p ∧ u = t) := by
  obtain ⟨table, inner, htable, hinner, rfl⟩ := leave_eq_some hleave
  obtain ⟨j, hj, rfl⟩ := TableInner.leave_eq_ok hinner
  exact holds_setInner_of_release htable fun i => (h.oneSeatEach t table htable).holds_release hj

theorem not_holds_of_leave_eq_none (h : s.WellFormed) {p i l : ℕ} (hleave : s.leave p t = none) :
    ¬ s.Holds p t i l := by
  rintro ⟨table, htable, hi, hholds⟩
  have hfound := (h.oneSeatEach t table htable).seatOf hholds
  simp [leave, htable, TableInner.leave, hfound] at hleave

/-- The link of the seat that a player holds. -/
theorem Holds.seatLink (h : s.WellFormed) {p i l : ℕ} (hholds : s.Holds p t i l) :
    s.seatLink p t = some l := by
  obtain ⟨table, htable, hi, hholds⟩ := hholds
  have hfound := (h.oneSeatEach t table htable).seatOf hholds
  obtain ⟨seat, hseat, -, -, rfl⟩ := hholds
  simp [ServerState.seatLink, htable, hfound, hseat]

/-- The session that a link leads to. -/
def linkSession (s : ServerState) (l : ℕ) : ℤ := (s.sessionId (s.links l)).getD 0

/-- `force_leave` gives up the seat if its link leads to the session. -/
theorem holds_forceLeave (h : s.WellFormed) {u i l : ℕ} :
    (s.forceLeave session t).Holds q u i l ↔ s.Holds q u i l ∧
      ¬(q = session.playerId ∧ u = t ∧ s.linkSession l = session.sessionId) := by
  unfold forceLeave
  split
  · rename_i hnone
    refine (and_iff_left_of_imp ?_).symm
    rintro ⟨table, htable, -⟩ ⟨-, rfl, -⟩
    cases hnone.symm.trans htable
  · rename_i table htable
    refine (holds_setActor { table.actor with inner := _ }).trans ?_
    split
    · rename_i hu
      subst hu
      have hiff : ∀ j : Fin table.config.maxSeats,
          (table.inner.forceLeave s.linkSession session.playerId
            (some session.sessionId)).Holds q j l ↔ table.inner.Holds q j l ∧
              ¬(q = session.playerId ∧ s.linkSession l = session.sessionId) :=
        fun _ => (h.oneSeatEach u table htable).holds_forceLeave _ _
      constructor
      · rintro ⟨hi, hholds⟩
        obtain ⟨hbefore, hne⟩ := (hiff ⟨i, hi⟩).mp hholds
        exact ⟨⟨table, htable, hi, hbefore⟩, fun heq => hne ⟨heq.1, heq.2.2⟩⟩
      · rintro ⟨⟨other, hother, hi, hholds⟩, hne⟩
        obtain rfl := Option.some.inj (htable.symm.trans hother)
        exact ⟨hi, (hiff ⟨i, hi⟩).mpr ⟨hholds, fun heq => hne ⟨heq.1, rfl, heq.2⟩⟩⟩
    · rename_i hu
      simp [hu]

/-- Sitting down adds the new seat; its link is new. -/
theorem holds_sit {buyIn : ℕ} (hsit : s.sit conn session t buyIn = some s') :
    ∃ j, ∀ q u i l, s'.Holds q u i l ↔ s.Holds q u i l ∨
      (q = session.playerId ∧ u = t ∧ i = j ∧ l = s.nextLink) := by
  obtain ⟨table, j, inner, htable, hinner, rfl⟩ := sit_eq_some hsit
  refine ⟨j, fun q u i l => ?_⟩
  refine (holds_setActor (s := s) { table.actor with inner := inner }).trans ?_
  split
  · rename_i hu
    subst hu
    constructor
    · rintro ⟨hi, hholds⟩
      obtain hbefore | ⟨rfl, hij, rfl⟩ := (TableInner.holds_sit hinner).mp hholds
      · exact Or.inl ⟨table, htable, hi, hbefore⟩
      · exact Or.inr ⟨rfl, rfl, congrArg Fin.val hij, rfl⟩
    · rintro (⟨other, hother, hi, hholds⟩ | ⟨rfl, -, rfl, rfl⟩)
      · obtain rfl := Option.some.inj (htable.symm.trans hother)
        exact ⟨hi, (TableInner.holds_sit hinner).mpr (Or.inl hholds)⟩
      · exact ⟨j.isLt, (TableInner.holds_sit hinner).mpr (Or.inr ⟨rfl, rfl, rfl⟩)⟩
  · rename_i hu
    simp [hu]

/-- A hand that busts a player who stays: the player loses the seat at its end. -/
def BustsAt (e : ℕ → Engine) (s : ServerState) (t : ℕ) (order : Fin 52 → Card)
    (answers : List Action) (playerId : ℕ) : Prop :=
  ∃ table snapshot, s.tables t = some table ∧ table.actor.phase = .playing snapshot ∧
    ∃ result ∈ runOneHand (e t) t order snapshot answers, table.inner.Busts result playerId

/-- The actor of a table takes no seat but those of players who leave or bust. -/
theorem holds_actor {e : ℕ → Engine} {op : ActorOp} (hstep : s.step e (.actor t op) = some s')
    {u i l : ℕ} : (s'.Holds q u i l → s.Holds q u i l) ∧
      (s.Holds q u i l → s'.Holds q u i l ∨ (u = t ∧ ∃ order answers,
        op = .finish order answers ∧ s.BustsAt e t order answers q)) := by
  cases step_cases hstep with
  | @actor _ _ table actor htable hactor =>
    rw [holds_setActor]
    split
    · rename_i hu
      subst hu
      refine ⟨?_, ?_⟩
      · rintro ⟨hi, hholds⟩
        exact ⟨table, htable, hi, (TableActor.advance_within hactor).holds hholds⟩
      · rintro ⟨other, hother, hi, hholds⟩
        obtain rfl := Option.some.inj (htable.symm.trans hother)
        obtain hseats | ⟨order, answers, snapshot, rfl, hphase, result, hresult, hinner⟩ :=
          TableActor.advance_seats hactor
        · exact Or.inl ⟨hi, by rwa [TableInner.Holds, hseats]⟩
        · rw [hinner]
          obtain hkeeps | hbusts := hholds.applyHandResult
          · exact Or.inl ⟨hi, hkeeps⟩
          · exact Or.inr ⟨rfl, order, answers, rfl, table, snapshot, htable, hphase, result,
              hresult, hbusts⟩
    · exact ⟨id, Or.inl⟩

end ServerState

end VibePoker.Server
