import VibePoker.Server.Membership

/-!
# The books of a player

Sitting down and recording it, leaving and recording it, and looking up the record and
taking a seat over are separate critical sections, and a hand that ends takes seats away
without a look at the map. The books of a player are right if every difference between
the map, the seats and their links is the work of a session that is still to do its
part. A step is orderly if it strands nothing that way.

## Main definitions

* `ServerState.Orderly` — a step does not strand what the others still have to do
* `ServerState.Books` — map, seats and links of a player agree, up to work to be done

## Main results

* `ServerState.Books.step` — every orderly step keeps the books of all players
-/

namespace VibePoker.Server

open VibePoker.Core VibePoker.Game VibePoker.Net

/-! ## What a session is still to do -/

/-- About to record a seat at the table, or to give it up. -/
def TaskPhase.WorksOn (phase : TaskPhase) (t : ℕ) : Prop :=
  phase = .seated t ∨ phase = .leaving t ∨ phase = .vacating t

/-- About to change the record of its player. -/
def TaskPhase.Rewrites (phase : TaskPhase) : Prop :=
  phase = .left ∨ phase = .departing ∨ ∃ t, phase = .seated t

/-- The task has given up the player's seat, or is about to. -/
def TaskPhase.Ends (phase : TaskPhase) : Prop :=
  (∃ t, phase = .vacating t) ∨ phase = .loggingOut ∨ phase = .closed

/-- A session that can drive a seat. -/
def Session.Serves (session : Session) : Prop := session.revoked = false ∧ ¬ session.phase.Ends

/-- About to bind the link of the seat at table `t` to its own connection. -/
def Session.TakesOver (session : Session) (t l : ℕ) : Prop :=
  session.revoked = false ∧
    (session.phase = .greeted ∨ session.phase = .found t ∨ session.phase = .splicing l)

def Session.Attends (session : Session) (t l : ℕ) : Prop :=
  session.TakesOver t l ∨ session.phase.WorksOn t

namespace ServerState

variable {s s' s₁ : ServerState} {conn p q t i l : ℕ} {session : Session} {phase : TaskPhase}
  {P : Session → Prop}

/-- Some session of the player satisfies `P`. -/
def Has (s : ServerState) (p : ℕ) (P : Session → Prop) : Prop :=
  ∃ conn session, s.sessions conn = some session ∧ session.playerId = p ∧ P session

/-- Some other session of the player does. -/
def HasOther (s : ServerState) (conn p : ℕ) (P : Session → Prop) : Prop :=
  ∃ other session, other ≠ conn ∧ s.sessions other = some session ∧ session.playerId = p ∧
    P session

/-- The link is bound to a session of the player that can drive its seat. -/
def Served (s : ServerState) (p l : ℕ) : Prop :=
  ∃ session, s.sessions (s.links l) = some session ∧ session.playerId = p ∧ session.Serves

/-! ## Orderly steps -/

/-- The next section of a session strands nothing, up to another session of its player
that is still to put it right. -/
def OrderlyAt (s : ServerState) (conn : ℕ) (session : Session) : Prop :=
  let p := session.playerId
  match session.phase with
  | .splicing l =>
    -- a superseded session does not bind a link late
    session.revoked = true → ∀ t i, s.Holds p t i l → s.HasOther conn p (·.Attends t l)
  | .seated t =>
    -- it does not overwrite the record of another seat
    (∀ u i l, u ≠ t → s.playerTable p = some u → s.Holds p u i l →
      s.HasOther conn p (·.phase.WorksOn u)) ∧
    -- the seat is still there
    ((∃ i l, s.Holds p t i l) ∨ s.HasOther conn p (·.phase.Rewrites)) ∧
    -- and in live hands
    ∀ i l, s.Holds p t i l → s.Served p l ∨ s.HasOther conn p (·.Attends t l)
  | .left =>
    -- the record that it removes is not that of a seat
    ∀ t i l, s.playerTable p = some t → s.Holds p t i l →
      s.HasOther conn p (·.phase.WorksOn t)
  | .vacating t =>
    -- the seat is its own, and not recorded again; or it is recorded and in live hands
    ∀ i l, s.Holds p t i l →
      if s.linkSession l = session.sessionId then
        s.playerTable p = some t → s.HasOther conn p (·.phase.Rewrites)
      else
        (s.playerTable p = some t ∨ s.HasOther conn p (·.phase.WorksOn t)) ∧
          (s.Served p l ∨ s.HasOther conn p (·.Attends t l))
  | _ => True

/-- The step strands nothing; a hand that ends busts no player who is recorded at the
table, up to a session that is about to change the record. -/
def Orderly (e : ℕ → Engine) (s : ServerState) : ServerOp → Prop
  | .advance conn => ∀ session, s.sessions conn = some session → s.OrderlyAt conn session
  | .actor t (.finish order answers) => ∀ p, s.BustsAt e t order answers p →
    s.playerTable p = some t → s.Has p (·.phase.Rewrites)
  | _ => True

/-! ## The books -/

/-- Map, seats and links of a player agree, up to what its sessions are still to do. -/
structure Books (s : ServerState) (p : ℕ) : Prop where
  holds : ∀ t i l, s.Holds p t i l →
    s.playerTable p = some t ∨ s.Has p (·.phase.WorksOn t)
  recorded : ∀ t, s.playerTable p = some t →
    (∃ i l, s.Holds p t i l) ∨ s.Has p (·.phase.Rewrites)
  attended : ∀ t i l, s.Holds p t i l → s.Served p l ∨ s.Has p (·.Attends t l)

theorem HasOther.mono {P' : Session → Prop} (h : s.HasOther conn p P)
    (himp : ∀ session, P session → P' session) : s.HasOther conn p P' := by
  obtain ⟨other, session, hne, hother, hplayer, hP⟩ := h
  exact ⟨other, session, hne, hother, hplayer, himp session hP⟩

/-- It is this session, or another one. -/
theorem Has.cases (h : s.Has p P) (hconn : s.sessions conn = some session) :
    P session ∨ s.HasOther conn p P := by
  obtain ⟨c, other, hother, hplayer, hP⟩ := h
  by_cases hc : c = conn
  · subst hc
    obtain rfl := Option.some.inj (hconn.symm.trans hother)
    exact Or.inl hP
  · exact Or.inr ⟨c, other, hc, hother, hplayer, hP⟩

/-- The books of a player whom a step does not touch. -/
theorem Books.congr (h : s.Books q) (hrecord : s'.playerTable q = s.playerTable q)
    (hholds : ∀ t i l, s'.Holds q t i l ↔ s.Holds q t i l)
    (hlinks : ∀ t i l, s.Holds q t i l → s'.links l = s.links l)
    (hsessions : ∀ conn session, session.playerId = q →
      (s'.sessions conn = some session ↔ s.sessions conn = some session)) : s'.Books q := by
  have hhas : ∀ P, s'.Has q P ↔ s.Has q P := by
    intro P
    refine exists_congr fun conn => exists_congr fun session => ?_
    constructor
    · rintro ⟨hconn, hplayer, hP⟩
      exact ⟨(hsessions conn session hplayer).mp hconn, hplayer, hP⟩
    · rintro ⟨hconn, hplayer, hP⟩
      exact ⟨(hsessions conn session hplayer).mpr hconn, hplayer, hP⟩
  refine ⟨fun t i l hl => ?_, fun t ht => ?_, fun t i l hl => ?_⟩
  · rw [hrecord, hhas]
    exact h.holds t i l ((hholds t i l).mp hl)
  · simp only [hholds, hhas]
    exact h.recorded t (hrecord ▸ ht)
  · have hl' := (hholds t i l).mp hl
    obtain ⟨session, hsession, hplayer, hserves⟩ | hattends := h.attended t i l hl'
    · refine Or.inl ⟨session, ?_, hplayer, hserves⟩
      rw [hlinks t i l hl', hsessions _ _ hplayer]
      exact hsession
    · exact Or.inr ((hhas _).mpr hattends)

/-! ### The sections of the player's own sessions -/

section Self

variable (h : s.Books session.playerId) (hconn : s.sessions conn = some session)
  (hsessions : s₁.sessions = s.sessions)

include h hconn in
theorem Books.holds_cases (hl : s.Holds session.playerId t i l) :
    s.playerTable session.playerId = some t ∨ session.phase.WorksOn t ∨
      s.HasOther conn session.playerId (·.phase.WorksOn t) :=
  (h.holds t i l hl).imp id fun hworking => hworking.cases hconn

include h hconn in
theorem Books.recorded_cases (ht : s.playerTable session.playerId = some t) :
    (∃ i l, s.Holds session.playerId t i l) ∨ session.phase.Rewrites ∨
      s.HasOther conn session.playerId (·.phase.Rewrites) :=
  (h.recorded t ht).imp id fun hrewriting => hrewriting.cases hconn

include h hconn in
theorem Books.attended_cases (hl : s.Holds session.playerId t i l) :
    s.Served session.playerId l ∨ session.Attends t l ∨
      s.HasOther conn session.playerId (·.Attends t l) :=
  (h.attended t i l hl).imp id fun hattending => hattending.cases hconn

include hsessions in
theorem has_goto (h : P { session with phase := phase } ∨ s.HasOther conn session.playerId P) :
    (s₁.goto conn session phase).Has session.playerId P := by
  obtain hself | ⟨other, x, hne, hother, hplayer, hP⟩ := h
  · exact ⟨conn, _, setSession_self, rfl, hself⟩
  · exact ⟨other, x, (setSession_of_ne hne).trans ((congrFun hsessions _).trans hother),
      hplayer, hP⟩

include hconn hsessions in
/-- A link that served still does, if it still leads to the same session. -/
theorem Served.goto (h : s.Served p l) (hlinks : s₁.links l = s.links l)
    (hends : session.Serves → ¬ phase.Ends) : (s₁.goto conn session phase).Served p l := by
  obtain ⟨x, hx, hplayer, hserves⟩ := h
  change ∃ y, (s₁.setSession conn _).sessions (s₁.links l) = some y ∧ _
  rw [hlinks]
  by_cases hc : s.links l = conn
  · rw [hc] at hx ⊢
    obtain rfl := Option.some.inj (hconn.symm.trans hx)
    exact ⟨_, setSession_self, hplayer, hserves.1, hends hserves⟩
  · exact ⟨x, (setSession_of_ne hc).trans ((congrFun hsessions _).trans hx), hplayer, hserves⟩

include hsessions in
/-- What a section has to show. -/
theorem books_goto
    (hholds : ∀ t i l, s₁.Holds session.playerId t i l → s₁.playerTable session.playerId = some t ∨
      phase.WorksOn t ∨ s.HasOther conn session.playerId (·.phase.WorksOn t))
    (hrecorded : ∀ t, s₁.playerTable session.playerId = some t →
      (∃ i l, s₁.Holds session.playerId t i l) ∨ phase.Rewrites ∨
        s.HasOther conn session.playerId (·.phase.Rewrites))
    (hattended : ∀ t i l, s₁.Holds session.playerId t i l →
      (s₁.goto conn session phase).Served session.playerId l ∨
        Session.Attends { session with phase := phase } t l ∨
        s.HasOther conn session.playerId (·.Attends t l)) :
    (s₁.goto conn session phase).Books session.playerId where
  holds t i l hl := (hholds t i l hl).imp id (has_goto hsessions)
  recorded t ht := (hrecorded t ht).imp id (has_goto hsessions)
  attended t i l hl := (hattended t i l hl).imp id (has_goto hsessions)

include h hconn

/-- A section that changes only where the session is. -/
theorem Books.quiet (hsessions : s₁.sessions = s.sessions)
    (hrecord : s₁.playerTable = s.playerTable) (hlinks : s₁.links = s.links)
    (hholds : ∀ t i l, s₁.Holds session.playerId t i l ↔ s.Holds session.playerId t i l)
    (hworks : ∀ t i l, s.Holds session.playerId t i l → session.phase.WorksOn t →
      phase.WorksOn t)
    (hrewrites : session.phase.Rewrites → phase.Rewrites)
    (htakes : ∀ t i l, s.Holds session.playerId t i l → session.TakesOver t l →
      Session.Attends { session with phase := phase } t l ∨
        s.HasOther conn session.playerId (·.Attends t l))
    (hends : session.Serves → ¬ phase.Ends) :
    (s₁.goto conn session phase).Books session.playerId := by
  refine books_goto hsessions (fun t i l hl => ?_) (fun t ht => ?_) fun t i l hl => ?_
  · have hl' := (hholds t i l).mp hl
    rw [hrecord]
    exact (h.holds_cases hconn hl').imp id (Or.imp (hworks t i l hl') id)
  · simp only [hholds]
    exact (h.recorded_cases hconn (hrecord ▸ ht)).imp id (Or.imp hrewrites id)
  · have hl' := (hholds t i l).mp hl
    obtain hserved | (htaking | hworking) | hother := h.attended_cases hconn hl'
    · exact Or.inl (hserved.goto hconn hsessions (congrFun hlinks l) hends)
    · exact Or.inr (htakes t i l hl' htaking)
    · exact Or.inr (Or.inl (Or.inr (hworks t i l hl' hworking)))
    · exact Or.inr (Or.inr hother)

/-- The session looks up the record: seats that are not recorded are worked on. -/
theorem Books.greeted (hphase : session.phase = .greeted)
    (hto : ∀ t, s.playerTable session.playerId = some t → phase = .found t)
    (hidle : s.playerTable session.playerId = none → phase = .idle) :
    (s.goto conn session phase).Books session.playerId := by
  refine h.quiet hconn rfl rfl rfl (fun _ _ _ => Iff.rfl) ?_ ?_ ?_ ?_
  · simp [hphase, TaskPhase.WorksOn]
  · simp [hphase, TaskPhase.Rewrites]
  · intro t i l hl htakes
    obtain ht | hself | hother := h.holds_cases hconn hl
    · exact Or.inl (Or.inl ⟨htakes.1, Or.inr (Or.inl (hto t ht))⟩)
    · simp [hphase, TaskPhase.WorksOn] at hself
    · exact Or.inr (hother.mono fun _ => Or.inr)
  · intro _
    cases hrecord : s.playerTable session.playerId with
    | none => simp [hidle hrecord, TaskPhase.Ends]
    | some t => simp [hto t hrecord, TaskPhase.Ends]

/-- The session looks for the seat's link. -/
theorem Books.found (hwf : s.WellFormed) (hphase : session.phase = .found t)
    (hto : ∀ l, s.seatLink session.playerId t = some l → phase = .splicing l)
    (hidle : s.seatLink session.playerId t = none → phase = .idle) :
    (s.goto conn session phase).Books session.playerId := by
  refine h.quiet hconn rfl rfl rfl (fun _ _ _ => Iff.rfl) ?_ ?_ ?_ ?_
  · simp [hphase, TaskPhase.WorksOn]
  · simp [hphase, TaskPhase.Rewrites]
  · intro u i l hl htakes
    obtain ⟨hrevoked, htakes⟩ := htakes
    simp only [hphase, reduceCtorEq, false_or, or_false, TaskPhase.found.injEq] at htakes
    subst htakes
    exact Or.inl (Or.inl ⟨hrevoked, Or.inr (Or.inr (hto l (hl.seatLink hwf)))⟩)
  · intro _
    cases hlink : s.seatLink session.playerId t with
    | none => simp [hidle hlink, TaskPhase.Ends]
    | some l => simp [hto l hlink, TaskPhase.Ends]

/-- The session binds a link. -/
theorem Books.splicing (hphase : session.phase = .splicing l)
    (horderly : s.OrderlyAt conn session) :
    ({ s with links := Function.update s.links l conn }.goto conn session .idle).Books
      session.playerId := by
  simp only [OrderlyAt, hphase] at horderly
  have hsessions : ServerState.sessions { s with links := Function.update s.links l conn } =
    s.sessions := rfl
  refine books_goto hsessions (fun t i k hk => ?_) (fun t ht => ?_) fun t i k hk => ?_
  · simpa [hphase, TaskPhase.WorksOn] using h.holds_cases hconn hk
  · obtain hheld | hself | hother := h.recorded_cases hconn ht
    · exact Or.inl hheld
    · simp [hphase, TaskPhase.Rewrites] at hself
    · exact Or.inr (Or.inr hother)
  · by_cases hkl : k = l
    · subst hkl
      cases hrevoked : session.revoked with
      | true => exact Or.inr (Or.inr (horderly hrevoked t i hk))
      | false =>
        refine Or.inl ⟨{ session with phase := .idle }, ?_, rfl, hrevoked, ?_⟩
        · change (s.setSession conn _).sessions (Function.update s.links k conn k) = _
          rw [Function.update_self]
          exact setSession_self
        · simp [TaskPhase.Ends]
    · obtain hserved | (⟨-, htakes⟩ | hself) | hother := h.attended_cases hconn hk
      · refine Or.inl (hserved.goto hconn hsessions (Function.update_of_ne hkl ..) fun _ => ?_)
        simp [TaskPhase.Ends]
      · simp [hphase, Ne.symm hkl] at htakes
      · simp [hphase, TaskPhase.WorksOn] at hself
      · exact Or.inr (Or.inr hother)

/-- The session sits down; it has yet to record the seat. -/
theorem Books.joining (hwf : s.WellFormed) {buyIn : ℕ} (hphase : session.phase = .joining t buyIn)
    (hsit : s.sit conn session t buyIn = some s₁) :
    (s₁.goto conn session (.seated t)).Books session.playerId := by
  obtain ⟨j, hholds⟩ := holds_sit hsit
  have hsessions := sit_sessions hsit
  refine books_goto hsessions (fun u i l hl => ?_) (fun u hu => ?_) fun u i l hl => ?_
  · rw [sit_playerTable hsit]
    obtain hl | ⟨-, rfl, -⟩ := (hholds _ u i l).mp hl
    · obtain hu | hself | hother := h.holds_cases hconn hl
      · exact Or.inl hu
      · simp [hphase, TaskPhase.WorksOn] at hself
      · exact Or.inr (Or.inr hother)
    · exact Or.inr (Or.inl (Or.inl rfl))
  · exact Or.inr (Or.inl (Or.inr (Or.inr ⟨t, rfl⟩)))
  · obtain hl | ⟨-, rfl, -⟩ := (hholds _ u i l).mp hl
    · obtain hserved | (⟨-, hself⟩ | hself) | hother := h.attended_cases hconn hl
      · -- the new link is none of the old ones
        obtain ⟨owner, howner⟩ := hwf.owned
        have hlinks := sit_links hsit (howner.holds hl).1
        exact Or.inl (hserved.goto hconn hsessions hlinks fun _ => by simp [TaskPhase.Ends])
      · simp [hphase] at hself
      · simp [hphase, TaskPhase.WorksOn] at hself
      · exact Or.inr (Or.inr hother)
    · exact Or.inr (Or.inl (Or.inr (Or.inl rfl)))

/-- The session records the seat that it took. -/
theorem Books.seated (hphase : session.phase = .seated t) (horderly : s.OrderlyAt conn session) :
    ((s.recordJoin session.playerId t).goto conn session .idle).Books session.playerId := by
  simp only [OrderlyAt, hphase] at horderly
  obtain ⟨hoverwritten, hthere, hlive⟩ := horderly
  have hsessions : (s.recordJoin session.playerId t).sessions = s.sessions := rfl
  have hrecord : (s.recordJoin session.playerId t).playerTable session.playerId = some t :=
    Function.update_self ..
  have hends : session.Serves → ¬ TaskPhase.idle.Ends := fun _ => by simp [TaskPhase.Ends]
  refine books_goto hsessions (fun u i l hl => ?_) (fun u hu => ?_) fun u i l hl => ?_
  · by_cases hut : u = t
    · exact Or.inl (hut ▸ hrecord)
    · obtain hu | hself | hother := h.holds_cases hconn hl
      · exact Or.inr (Or.inr (hoverwritten u i l hut hu hl))
      · simp [hphase, TaskPhase.WorksOn, Ne.symm hut] at hself
      · exact Or.inr (Or.inr hother)
  · obtain rfl := Option.some.inj (hrecord.symm.trans hu)
    exact hthere.imp id Or.inr
  · by_cases hut : u = t
    · subst hut
      exact (hlive i l hl).imp (fun hserved => hserved.goto hconn hsessions rfl hends) Or.inr
    · obtain hserved | (⟨-, hself⟩ | hself) | hother := h.attended_cases hconn hl
      · exact Or.inl (hserved.goto hconn hsessions rfl hends)
      · simp [hphase] at hself
      · simp [hphase, TaskPhase.WorksOn, Ne.symm hut] at hself
      · exact Or.inr (Or.inr hother)

/-- The session leaves the table; it has yet to remove the record. -/
theorem Books.leaving (hwf : s.WellFormed) (hphase : session.phase = .leaving t)
    (hleave : s.leave session.playerId t = some s₁) :
    (s₁.goto conn session .left).Books session.playerId := by
  have hsessions := leave_sessions hleave
  refine books_goto hsessions (fun u i l hl => ?_) (fun u hu => ?_) fun u i l hl => ?_
  · rw [leave_playerTable hleave]
    obtain ⟨hl, hne⟩ := (holds_leave hwf hleave).mp hl
    have hut : ¬ t = u := fun heq => hne ⟨rfl, heq.symm⟩
    simpa [hphase, TaskPhase.WorksOn, hut] using h.holds_cases hconn hl
  · exact Or.inr (Or.inl (Or.inl rfl))
  · obtain ⟨hl, hne⟩ := (holds_leave hwf hleave).mp hl
    have hut : ¬ t = u := fun heq => hne ⟨rfl, heq.symm⟩
    obtain hserved | (⟨-, hself⟩ | hself) | hother := h.attended_cases hconn hl
    · refine Or.inl (hserved.goto hconn hsessions (congrFun (leave_links hleave) l) fun _ => ?_)
      simp [TaskPhase.Ends]
    · simp [hphase] at hself
    · simp [hphase, TaskPhase.WorksOn, hut] at hself
    · exact Or.inr (Or.inr hother)

/-- The session removes the record of the table that it left. -/
theorem Books.left (hphase : session.phase = .left) (horderly : s.OrderlyAt conn session) :
    ((s.recordLeave session.playerId).goto conn session .idle).Books session.playerId := by
  simp only [OrderlyAt, hphase] at horderly
  have hsessions : (s.recordLeave session.playerId).sessions = s.sessions := rfl
  have hrecord : (s.recordLeave session.playerId).playerTable session.playerId = none :=
    Function.update_self ..
  refine books_goto hsessions (fun u i l hl => ?_) (fun u hu => ?_) fun u i l hl => ?_
  · obtain hu | hself | hother := h.holds_cases hconn hl
    · exact Or.inr (Or.inr (horderly u i l hu hl))
    · simp [hphase, TaskPhase.WorksOn] at hself
    · exact Or.inr (Or.inr hother)
  · cases hrecord.symm.trans hu
  · obtain hserved | (⟨-, hself⟩ | hself) | hother := h.attended_cases hconn hl
    · exact Or.inl (hserved.goto hconn hsessions rfl fun _ => by simp [TaskPhase.Ends])
    · simp [hphase] at hself
    · simp [hphase, TaskPhase.WorksOn] at hself
    · exact Or.inr (Or.inr hother)

/-- The clean-up removes the record; it works on the seat that was recorded. -/
theorem Books.departing (hphase : session.phase = .departing)
    (hsessions : s₁.sessions = s.sessions) (hrecord : s₁.playerTable session.playerId = none)
    (htables : s₁.tables = s.tables)
    (hto : ∀ t, s.playerTable session.playerId = some t → phase = .vacating t) :
    (s₁.goto conn session phase).Books session.playerId := by
  have hholds : ∀ t i l, s₁.Holds session.playerId t i l → s.Holds session.playerId t i l :=
    fun t i l hl => by rwa [Holds, htables] at hl
  have hworks : ∀ t i l, s.Holds session.playerId t i l → phase.WorksOn t ∨
      s.HasOther conn session.playerId (·.phase.WorksOn t) := by
    intro t i l hl
    obtain ht | hself | hother := h.holds_cases hconn hl
    · exact Or.inl (Or.inr (Or.inr (hto t ht)))
    · simp [hphase, TaskPhase.WorksOn] at hself
    · exact Or.inr hother
  refine books_goto hsessions (fun t i l hl => ?_) (fun t ht => ?_) fun t i l hl => ?_
  · exact Or.inr (hworks t i l (hholds t i l hl))
  · cases hrecord.symm.trans ht
  · refine Or.inr ((hworks t i l (hholds t i l hl)).imp Or.inr fun hother => ?_)
    exact hother.mono fun _ => Or.inr

/-- The clean-up gives the seat up, if it is still its own. -/
theorem Books.vacating (hwf : s.WellFormed) (hphase : session.phase = .vacating t)
    (horderly : s.OrderlyAt conn session) :
    ((s.forceLeave session t).goto conn session .loggingOut).Books session.playerId := by
  simp only [OrderlyAt, hphase] at horderly
  -- the seat that stays leads to another session
  have hother : ∀ i l, (s.forceLeave session t).Holds session.playerId t i l →
      (s.playerTable session.playerId = some t ∨
        s.HasOther conn session.playerId (·.phase.WorksOn t)) ∧
      (s.Served session.playerId l ∨ s.HasOther conn session.playerId (·.Attends t l)) := by
    intro i l hl
    obtain ⟨hl, hne⟩ := (holds_forceLeave hwf).mp hl
    have hkept := horderly i l hl
    rwa [if_neg fun hsid => hne ⟨rfl, rfl, hsid⟩] at hkept
  have hserves : session.Serves → ¬ TaskPhase.loggingOut.Ends := by
    rintro ⟨-, hends⟩
    exact absurd (Or.inl ⟨t, hphase⟩) hends
  refine books_goto forceLeave_sessions (fun u i l hl => ?_) (fun u hu => ?_) fun u i l hl => ?_
  · rw [forceLeave_playerTable]
    by_cases hut : u = t
    · subst hut
      exact (hother i l hl).1.imp id Or.inr
    · have hl := ((holds_forceLeave hwf).mp hl).1
      obtain hu | hself | hother := h.holds_cases hconn hl
      · exact Or.inl hu
      · simp [hphase, TaskPhase.WorksOn, Ne.symm hut] at hself
      · exact Or.inr (Or.inr hother)
  · rw [forceLeave_playerTable] at hu
    obtain ⟨i, l, hl⟩ | hself | hother := h.recorded_cases hconn hu
    · by_cases hgone : u = t ∧ s.linkSession l = session.sessionId
      · obtain ⟨rfl, hsid⟩ := hgone
        have hkept := horderly i l hl
        rw [if_pos hsid] at hkept
        exact Or.inr (Or.inr (hkept hu))
      · exact Or.inl ⟨i, l, (holds_forceLeave hwf).mpr ⟨hl, fun heq => hgone heq.2⟩⟩
    · simp [hphase, TaskPhase.Rewrites] at hself
    · exact Or.inr (Or.inr hother)
  · by_cases hut : u = t
    · subst hut
      exact (hother i l hl).2.imp (fun hserved => hserved.goto hconn forceLeave_sessions
        (congrFun forceLeave_links l) hserves) Or.inr
    · have hl := ((holds_forceLeave hwf).mp hl).1
      obtain hserved | (⟨-, hself⟩ | hself) | hother := h.attended_cases hconn hl
      · exact Or.inl (hserved.goto hconn forceLeave_sessions (congrFun forceLeave_links l) hserves)
      · simp [hphase] at hself
      · simp [hphase, TaskPhase.WorksOn, Ne.symm hut] at hself
      · exact Or.inr (Or.inr hother)

/-- A section that changes where the session is, from where it does none of the work. -/
theorem Books.idle (hends : ¬ phase.Ends)
    (hworks : ∀ t i l, s.Holds session.playerId t i l → ¬ session.phase.WorksOn t)
    (hrewrites : ¬ session.phase.Rewrites) (htakes : ∀ t l, ¬ session.TakesOver t l) :
    (s.goto conn session phase).Books session.playerId :=
  h.quiet hconn rfl rfl rfl (fun _ _ _ => Iff.rfl)
    (fun t i l hl hself => absurd hself (hworks t i l hl)) (fun hself => absurd hself hrewrites)
    (fun t _ l _ hself => absurd hself (htakes t l)) (fun _ => hends)

/-- Every orderly section of a session keeps the books of its player. -/
theorem Books.advance_self (hwf : s.WellFormed) (horderly : s.OrderlyAt conn session)
    (hstep : SectionStep s conn session s') : s'.Books session.playerId := by
  cases hstep with
  | lookUp hphase hrecord =>
    exact h.greeted hconn hphase (fun u hu => by rw [Option.some.inj (hrecord.symm.trans hu)])
      fun hnone => by cases hrecord.symm.trans hnone
  | lookUpNone hphase hrecord =>
    exact h.greeted hconn hphase (fun u hu => by cases hrecord.symm.trans hu) fun _ => rfl
  | seatLink hphase hlink =>
    exact h.found hconn hwf hphase (fun k hk => by rw [Option.some.inj (hlink.symm.trans hk)])
      fun hnone => by cases hlink.symm.trans hnone
  | seatLinkNone hphase hlink =>
    exact h.found hconn hwf hphase (fun k hk => by cases hlink.symm.trans hk) fun _ => rfl
  | splice hphase => exact h.splicing hconn hphase horderly
  | sit hphase hsit => exact h.joining hconn hwf hphase hsit
  | recordJoin hphase => exact h.seated hconn hphase horderly
  | leave hphase hleave => exact h.leaving hconn hwf hphase hleave
  | leaveNone hphase hleave =>
    apply h.idle hconn
    · simp [TaskPhase.Ends]
    · -- there is no seat to leave
      intro u i l hl hself
      simp only [hphase, TaskPhase.WorksOn, reduceCtorEq, false_or, or_false,
        TaskPhase.leaving.injEq] at hself
      exact not_holds_of_leave_eq_none hwf hleave (hself ▸ hl)
    · simp [hphase, TaskPhase.Rewrites]
    · simp [hphase, Session.TakesOver]
  | recordLeave hphase => exact h.left hconn hphase horderly
  -- a revoked session leaves the books to the one that took over
  | superseded hphase hrevoked =>
    refine h.quiet hconn rfl rfl rfl (fun _ _ _ => Iff.rfl) ?_ ?_ ?_ ?_
    · simp [hphase, TaskPhase.WorksOn]
    · simp [hphase, TaskPhase.Rewrites]
    · simp [hphase, Session.TakesOver]
    · rintro ⟨hkept, -⟩
      cases hrevoked.symm.trans hkept
  | depart hphase hrecord =>
    exact h.departing hconn hphase rfl (Function.update_self ..) rfl
      fun u hu => by rw [Option.some.inj (hrecord.symm.trans hu)]
  | departNone hphase hrecord =>
    exact h.departing hconn hphase rfl hrecord rfl fun u hu => by cases hrecord.symm.trans hu
  | vacate hphase => exact h.vacating hconn hwf hphase horderly
  | logOut hphase =>
    obtain ⟨online, hlogout⟩ := logout_eq s conn session.playerId
    rw [hlogout]
    refine h.quiet hconn rfl rfl rfl (fun _ _ _ => Iff.rfl) ?_ ?_ ?_ ?_
    · simp [hphase, TaskPhase.WorksOn]
    · simp [hphase, TaskPhase.Rewrites]
    · simp [hphase, Session.TakesOver]
    · rintro ⟨-, hends⟩
      exact absurd (Or.inr (Or.inl hphase)) hends
  | refuse hphase | accept hphase _ | sitNone hphase | kept hphase _ =>
    apply h.idle hconn <;>
      simp [hphase, TaskPhase.Ends, TaskPhase.WorksOn, TaskPhase.Rewrites, Session.TakesOver]

end Self

/-! ### The sections of the others -/

/-- A section of another player's session moves this session only. -/
theorem sessions_goto_of_ne (hconn : s.sessions conn = some session)
    (hsessions : s₁.sessions = s.sessions) (hq : q ≠ session.playerId) (c : ℕ) (x : Session)
    (hx : x.playerId = q) :
    (s₁.goto conn session phase).sessions c = some x ↔ s.sessions c = some x := by
  by_cases hc : c = conn
  · subst hc
    constructor
    · intro hself
      obtain rfl := Option.some.inj (setSession_self.symm.trans hself)
      exact absurd hx.symm hq
    · intro hself
      obtain rfl := Option.some.inj (hconn.symm.trans hself)
      exact absurd hx.symm hq
  · rw [goto, setSession_of_ne hc, hsessions]

/-- What a section does outside its session, for another player. -/
structure Spares (s s₁ : ServerState) (q : ℕ) : Prop where
  sessions : s₁.sessions = s.sessions
  record : s₁.playerTable q = s.playerTable q
  holds : ∀ t i l, s₁.Holds q t i l ↔ s.Holds q t i l
  links : ∀ t i l, s.Holds q t i l → s₁.links l = s.links l

theorem Spares.refl : s.Spares s q := ⟨rfl, rfl, fun _ _ _ => Iff.rfl, fun _ _ _ _ => rfl⟩

theorem Spares.recordJoin (hq : q ≠ p) : s.Spares (s.recordJoin p t) q :=
  ⟨rfl, Function.update_of_ne hq .., fun _ _ _ => Iff.rfl, fun _ _ _ _ => rfl⟩

theorem Spares.recordLeave (hq : q ≠ p) : s.Spares (s.recordLeave p) q :=
  ⟨rfl, Function.update_of_ne hq .., fun _ _ _ => Iff.rfl, fun _ _ _ _ => rfl⟩

theorem Books.goto_other (h : s.Books q) (hconn : s.sessions conn = some session)
    (hq : q ≠ session.playerId) (hspares : s.Spares s₁ q) :
    (s₁.goto conn session phase).Books q :=
  h.congr hspares.record hspares.holds hspares.links
    (sessions_goto_of_ne hconn hspares.sessions hq)

/-- A section of another player's session spares the player. -/
theorem SectionStep.spares (hwf : s.WellFormed) (hconn : s.sessions conn = some session)
    (hq : q ≠ session.playerId) (hstep : SectionStep s conn session s') :
    ∃ s₁ phase, s.Spares s₁ q ∧ s' = s₁.goto conn session phase := by
  obtain ⟨owner, howner⟩ := hwf.owned
  cases hstep with
  | @splice l hphase =>
    -- the link that is bound belongs to the session's player
    refine ⟨{ s with links := Function.update s.links l conn }, _,
      ⟨rfl, rfl, fun _ _ _ => Iff.rfl, fun t i k hk => Function.update_of_ne ?_ ..⟩, rfl⟩
    rintro rfl
    exact hq ((howner.holds hk).2.symm.trans (howner.splicing conn session k hconn hphase).2)
  | @sit _ _ s₁ hphase hsit =>
    obtain ⟨j, hholds⟩ := holds_sit hsit
    refine ⟨s₁, _, ⟨sit_sessions hsit, congrFun (sit_playerTable hsit) q, fun t i l => ?_,
      fun t i l hl => sit_links hsit (howner.holds hl).1⟩, rfl⟩
    rw [hholds]
    exact or_iff_left fun hnew => hq hnew.1
  | recordJoin hphase => exact ⟨_, _, .recordJoin hq, rfl⟩
  | @leave _ s₁ hphase hleave =>
    refine ⟨s₁, _, ⟨leave_sessions hleave, congrFun (leave_playerTable hleave) q, fun t i l => ?_,
      fun _ _ _ _ => congrFun (leave_links hleave) _⟩, rfl⟩
    rw [holds_leave hwf hleave]
    exact and_iff_left fun heq => hq heq.1
  | recordLeave hphase => exact ⟨_, _, .recordLeave hq, rfl⟩
  | depart hphase hrecord => exact ⟨_, _, .recordLeave hq, rfl⟩
  | vacate hphase =>
    refine ⟨_, _, ⟨forceLeave_sessions, congrFun forceLeave_playerTable q, fun t i l => ?_,
      fun _ _ _ _ => congrFun forceLeave_links _⟩, rfl⟩
    rw [holds_forceLeave hwf]
    exact and_iff_left fun heq => hq heq.1
  | logOut hphase =>
    obtain ⟨online, hlogout⟩ := logout_eq s conn session.playerId
    rw [hlogout]
    exact ⟨{ s with online := online }, _,
      ⟨rfl, rfl, fun _ _ _ => Iff.rfl, fun _ _ _ _ => rfl⟩, rfl⟩
  | lookUp | lookUpNone | seatLink | seatLinkNone | refuse | accept | sitNone | leaveNone
  | superseded | kept | departNone => exact ⟨s, _, .refl, rfl⟩

/-! ### Steps -/

/-- The reader loop of a session goes on, or ends. -/
theorem Books.read (h : s.Books q) (hconn : s.sessions conn = some session)
    (hidle : session.phase = .idle) (hends : ¬ phase.Ends) :
    (s.goto conn session phase).Books q := by
  by_cases hq : q = session.playerId
  · subst hq
    refine h.quiet hconn rfl rfl rfl (fun _ _ _ => Iff.rfl) ?_ ?_ ?_ fun _ => hends
    · simp [hidle, TaskPhase.WorksOn]
    · simp [hidle, TaskPhase.Rewrites]
    · simp [hidle, Session.TakesOver]
  · exact h.goto_other hconn hq .refl

theorem installOnline_self : (s.installOnline conn session).sessions conn = some session :=
  Function.update_self ..

theorem installOnline_of_ne {c : ℕ} (h : c ≠ conn) :
    (s.installOnline conn session).sessions c = (s.revoke session.playerId).sessions c :=
  Function.update_of_ne h ..

theorem revoke_fields : (s.revoke p).tables = s.tables ∧ (s.revoke p).playerTable = s.playerTable ∧
    (s.revoke p).links = s.links := by
  unfold revoke
  split
  · exact ⟨rfl, rfl, rfl⟩
  · split <;> exact ⟨rfl, rfl, rfl⟩

/-- A login takes over what the player's sessions attended, and leaves them their work. -/
theorem Books.login (h : s.Books q) (hwf : s.WellFormed) (hfresh : s.sessions conn = none)
    (hphase : session.phase = .greeted) (hrevoked : session.revoked = false) :
    (s.installOnline conn session).Books q := by
  obtain ⟨htables, hrecord, hlinks⟩ := @revoke_fields s session.playerId
  have hholds : ∀ t i l, (s.installOnline conn session).Holds q t i l ↔ s.Holds q t i l :=
    fun t i l => by
      change (∃ table, (s.revoke session.playerId).tables t = some table ∧ _) ↔ _
      rw [htables]
      rfl
  by_cases hq : q = session.playerId
  · -- the phases of the player's other sessions are what they were
    have hhas : ∀ Q : TaskPhase → Prop, s.Has q (fun x => Q x.phase) →
        (s.installOnline conn session).Has q (fun x => Q x.phase) := by
      rintro Q ⟨c, x, hx, hplayer, hQ⟩
      have hne : c ≠ conn := by
        rintro rfl
        cases hfresh.symm.trans hx
      obtain hsame | ⟨y, -, hy, hrevoke⟩ := @revoke_sessions s session.playerId c
      · exact ⟨c, x, (installOnline_of_ne hne).trans (hsame.trans hx), hplayer, hQ⟩
      · obtain rfl := Option.some.inj (hx.symm.trans hy)
        exact ⟨c, _, (installOnline_of_ne hne).trans hrevoke, hplayer, hQ⟩
    refine ⟨fun t i l hl => ?_, fun t ht => ?_, fun t i l hl => ?_⟩
    · obtain ht | hworking := h.holds t i l ((hholds t i l).mp hl)
      · exact Or.inl ((congrFun hrecord q).trans ht)
      · exact Or.inr (hhas (·.WorksOn t) hworking)
    · simp only [hholds]
      exact (h.recorded t ((congrFun hrecord q).symm.trans ht)).imp id (hhas TaskPhase.Rewrites)
    · exact Or.inr ⟨conn, session, installOnline_self, hq.symm, Or.inl ⟨hrevoked, Or.inl hphase⟩⟩
  · refine h.congr (congrFun hrecord q) hholds (fun _ _ l _ => congrFun hlinks l) ?_
    intro c x hx
    by_cases hc : c = conn
    · subst hc
      rw [installOnline_self, hfresh]
      constructor
      · intro hself
        obtain rfl := Option.some.inj hself
        exact absurd hx.symm hq
      · intro hnone
        cases hnone
    · rw [installOnline_of_ne hc]
      obtain hsame | ⟨y, honline, hy, hrevoke⟩ := @revoke_sessions s session.playerId c
      · rw [hsame]
      · -- the session that is revoked belongs to the player who logs in
        obtain ⟨y', hy', hplayer⟩ := hwf.online _ c honline
        obtain rfl := Option.some.inj (hy.symm.trans hy')
        rw [hrevoke, hy]
        constructor
        · intro hself
          obtain rfl := Option.some.inj hself
          exact absurd (hx.symm.trans hplayer) hq
        · intro hself
          obtain rfl := Option.some.inj hself
          exact absurd (hx.symm.trans hplayer) hq

/-- The actor of a table takes away what is on no player's record. -/
theorem Books.actor {e : ℕ → Engine} {op : ActorOp} (h : s.Books q)
    (horderly : s.Orderly e (.actor t op)) (hstep : s.step e (.actor t op) = some s') :
    s'.Books q := by
  have hholds := fun u i l => holds_actor hstep (q := q) (u := u) (i := i) (l := l)
  cases step_cases hstep with
  | actor htable hactor =>
    refine ⟨fun u i l hl => ?_, fun u hu => ?_, fun u i l hl => ?_⟩
    · exact h.holds u i l ((hholds u i l).1 hl)
    · obtain ⟨i, l, hl⟩ | hrewriting := h.recorded u hu
      · obtain hl' | ⟨rfl, order, answers, rfl, hbusts⟩ := (hholds u i l).2 hl
        · exact Or.inl ⟨i, l, hl'⟩
        · exact Or.inr (horderly q hbusts hu)
      · exact Or.inr hrewriting
    · exact h.attended u i l ((hholds u i l).1 hl)

/-- Every orderly step keeps the books of all players. -/
theorem Books.step {e : ℕ → Engine} {op : ServerOp} (h : s.Books q) (hwf : s.WellFormed)
    (horderly : s.Orderly e op) (hstep : s.step e op = some s') : s'.Books q := by
  cases step_cases hstep with
  | login playerId username sessionId hfresh => exact h.login hwf hfresh rfl rfl
  | receive msg hconn hidle hreads =>
    exact h.read hconn hidle (by cases hreads <;> simp [TaskPhase.Ends])
  | hangUp hconn hidle => exact h.read hconn hidle (by simp [TaskPhase.Ends])
  | @advance conn session _ hconn hsection =>
    by_cases hq : q = session.playerId
    · subst hq
      exact h.advance_self hconn hwf (horderly session hconn) hsection
    · obtain ⟨s₁, phase, hspares, rfl⟩ := hsection.spares hwf hconn hq
      exact h.goto_other hconn hq hspares
  | actor htable hactor => exact h.actor horderly hstep

end ServerState

end VibePoker.Server
