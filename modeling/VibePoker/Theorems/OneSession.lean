import VibePoker.CS.Trace
import VibePoker.Server.Registry

/-!
# One live session for each player

Every login hands out a connection with a `revoked` flag, which the next login of the
player sets through the online entry. A login by session key keeps the session's id, and
`logout` goes by that id: the logout of the connection that was superseded takes the new
connection's entry away, and the next login does not find it.

## Main definitions

* `Logins` — the registry, and all that was handed out
* `Logins.OneLive` — at most one live connection for each player
* `Logins.OwnLogout` — no live connection shares the session of one that closes

## Main results

* `one_session_iff` — logins and logouts keep to one session exactly if each logout is
  of such a connection
* `two_sessions` — a session resumed by key, and a third login
-/

namespace VibePoker.Server

open VibePoker.CS

/-- A connection, and whether it has logged out. -/
structure Issued where
  success : AuthSuccess
  loggedOut : Bool
deriving DecidableEq, Repr

/-- The player a connection belongs to. -/
def Issued.player (x : Issued) : ℕ := x.success.record.playerId

structure Logins where
  registry : Registry
  issued : List Issued

/-- The calls of the server's connections on the registry; `logout` is issued by the
connection that was handed out as the `i`-th. -/
inductive RegistryCall
  | register (email username password : String) (deviceLabel hash : Option String)
      (key : String) (now : ℕ)
  | authenticatePassword (identifier password : String) (deviceLabel : Option String)
      (key : String) (now : ℕ)
  | authenticateSession (key : String)
  | logout (i : ℕ)

namespace Logins

/-- Nobody is online. -/
def opened (db : Database) : Logins := ⟨.opened db, []⟩

/-- Keep what a login hands out. -/
def handOut (s : Logins) : Except RegistryError (AuthSuccess × Registry) → Logins
  | .error _ => s
  | .ok (success, r) => ⟨r, s.issued ++ [⟨success, false⟩]⟩

def call (verify : String → String → Option Bool) (s : Logins) : RegistryCall → Logins
  | .register email username password deviceLabel hash key now =>
    s.handOut (s.registry.register email username password deviceLabel hash key now)
  | .authenticatePassword identifier password deviceLabel key now =>
    s.handOut (s.registry.authenticatePassword verify identifier password deviceLabel key now)
  | .authenticateSession key => s.handOut (s.registry.authenticateSession key)
  | .logout i =>
    match s.issued[i]? with
    | none => s
    | some x => ⟨s.registry.logout x.player x.success.sessionId,
        s.issued.set i { x with loggedOut := true }⟩

/-- The connection is neither revoked nor logged out. -/
def live (s : Logins) (x : Issued) : Bool := !s.registry.revoked x.success.revoked && !x.loggedOut

/-- At most one live connection for each player. -/
def OneLive (s : Logins) : Prop :=
  ∀ (i j : ℕ) (x y : Issued), s.issued[i]? = some x → s.issued[j]? = some y → s.live x → s.live y →
    x.player = y.player → i = j

/-- What a call that leads from `s` to `s'` has to keep. -/
structure KeepsOne (s : Logins) (c : RegistryCall) (s' : Logins) : Prop where
  /-- At most one connection of each player is live. -/
  oneLive : s'.OneLive
  /-- A login flips the flag of every live connection of the player. -/
  flips : ∀ (i j : ℕ) (x y : Issued), s.issued[i]? = some x → s.live x →
    s.issued.length ≤ j → s'.issued[j]? = some y → y.player = x.player →
      s'.registry.revoked x.success.revoked
  /-- A logout leaves the online entry of a later connection. -/
  spares : ∀ (i j : ℕ) (x y : Issued) (entry : OnlineEntry), c = .logout i →
    s.issued[i]? = some x → s.issued[j]? = some y → i < j →
      s.registry.online x.player = some entry → entry.revoked = y.success.revoked →
        s'.registry.online x.player = some entry

/-- A connection that logs out does not share its session with another live connection
of the player. -/
def OwnLogout (s : Logins) : RegistryCall → Prop
  | .logout i => ∀ (x : Issued) (j : ℕ) (y : Issued), s.issued[i]? = some x →
      s.issued[j]? = some y → s.live y → y.player = x.player →
        y.success.sessionId = x.success.sessionId → j = i
  | _ => True

/-! ## The three records of a connection -/

/-- Flags, online entries and connections belong together: a connection is live exactly
if the online entry of its player is its own, and it is the last one of the player. -/
structure Tied (s : Logins) : Prop where
  flag_eq : ∀ (i : ℕ) (x : Issued), s.issued[i]? = some x → x.success.revoked = i
  nextFlag_eq : s.registry.nextFlag = s.issued.length
  owner : ∀ p entry, s.registry.online p = some entry → ∃ (i : ℕ) (x : Issued),
    s.issued[i]? = some x ∧ s.live x ∧ x.player = p ∧ entry.revoked = i ∧
      x.success.sessionId = entry.sessionId
  entry_of_live : ∀ (i : ℕ) (x : Issued), s.issued[i]? = some x → s.live x →
    ∃ entry, s.registry.online x.player = some entry ∧ entry.revoked = i
  latest : ∀ (i j : ℕ) (x y : Issued), s.issued[i]? = some x → s.live x →
    s.issued[j]? = some y → y.player = x.player → j ≤ i

theorem tied_opened (db : Database) : (opened db).Tied where
  flag_eq := by simp [opened]
  nextFlag_eq := rfl
  owner := by simp [opened, Registry.opened]
  entry_of_live := by simp [opened]
  latest := by simp [opened]

namespace Tied

variable {s : Logins}

theorem oneLive (h : s.Tied) : s.OneLive := by
  intro i j x y hx hy hlivex hlivey hplayer
  obtain ⟨entry, hentry, hi⟩ := h.entry_of_live i x hx hlivex
  obtain ⟨entry', hentry', hj⟩ := h.entry_of_live j y hy hlivey
  rw [hplayer, hentry', Option.some.injEq] at hentry
  rw [← hi, ← hj, hentry]

/-- What was handed out has a number below the next one. -/
theorem lt_nextFlag (h : s.Tied) {i : ℕ} {x : Issued} (hx : s.issued[i]? = some x) :
    i < s.registry.nextFlag := by
  rw [h.nextFlag_eq]
  exact (List.getElem?_eq_some_iff.mp hx).1

/-! ### Logins -/

section Login

variable {r' : Registry} {success : AuthSuccess}

/-- A login leaves the live connections of the other players. -/
theorem live_logIn (h : s.Tied) (hlogin : s.registry.LogsIn success r') {i : ℕ} {x : Issued}
    (hx : s.issued[i]? = some x) {issued : List Issued} :
    (Logins.mk r' issued).live x ↔ s.live x ∧ x.player ≠ success.record.playerId := by
  have hflag := h.flag_eq i x hx
  have hold : x.success.revoked ≠ s.registry.nextFlag := by
    rw [hflag]
    exact (h.lt_nextFlag hx).ne
  simp only [live, hlogin.revoked_eq hold, Bool.and_eq_true, Bool.not_eq_true',
    Bool.or_eq_false_iff]
  constructor
  · rintro ⟨⟨hrevoked, hentry⟩, hin⟩
    refine ⟨⟨hrevoked, hin⟩, fun hplayer => ?_⟩
    -- its own entry was the one that the login replaced
    obtain ⟨entry, honline, howner⟩ := h.entry_of_live i x hx (by simp [live, hrevoked, hin])
    rw [← hplayer, honline, Option.any_some, howner, hflag] at hentry
    simp at hentry
  · rintro ⟨⟨hrevoked, hin⟩, hplayer⟩
    refine ⟨⟨hrevoked, ?_⟩, hin⟩
    cases honline : s.registry.online success.record.playerId with
    | none => rfl
    | some entry =>
      obtain ⟨j, y, hy, -, hyplayer, hj, -⟩ := h.owner _ _ honline
      rw [Option.any_some, hj, hflag, decide_eq_false_iff_not]
      rintro rfl
      rw [hx, Option.some.injEq] at hy
      exact hplayer (hy ▸ hyplayer)

/-- The new connection is live. -/
theorem live_new (h : s.Tied) (hlogin : s.registry.LogsIn success r') {issued : List Issued} :
    (Logins.mk r' issued).live ⟨success, false⟩ := by
  have hnew := hlogin.not_revoked fun entry honline => by
    obtain ⟨j, y, hy, -, -, hj, -⟩ := h.owner _ _ honline
    rw [hj]
    exact (h.lt_nextFlag hy).ne
  simp [live, hnew]

/-- What is handed out after a login: an old connection, or the new one. -/
theorem getElem?_handOut {i : ℕ} {x : Issued}
    (hx : (s.issued ++ [⟨success, false⟩])[i]? = some x) :
    s.issued[i]? = some x ∨ i = s.issued.length ∧ x = ⟨success, false⟩ := by
  rcases lt_trichotomy i s.issued.length with hlt | rfl | hgt
  · left
    rwa [List.getElem?_append_left hlt] at hx
  · right
    simpa [eq_comm] using hx
  · rw [List.getElem?_eq_none (by simpa [Nat.succ_le_iff] using hgt)] at hx
    cases hx

theorem handOut (h : s.Tied) (hlogin : s.registry.LogsIn success r') :
    (Logins.mk r' (s.issued ++ [⟨success, false⟩])).Tied := by
  have hnew : (s.issued ++ [(⟨success, false⟩ : Issued)])[s.issued.length]? =
      some ⟨success, false⟩ := by
    simp
  have hkeep : ∀ {i : ℕ} {x : Issued}, s.issued[i]? = some x →
      (s.issued ++ [(⟨success, false⟩ : Issued)])[i]? = some x := by
    intro i x hx
    rw [List.getElem?_append_left (List.getElem?_eq_some_iff.mp hx).1]
    exact hx
  constructor
  case flag_eq =>
    intro i x hx
    rcases getElem?_handOut hx with hx | ⟨rfl, rfl⟩
    · exact h.flag_eq i x hx
    · exact hlogin.flag_eq.trans h.nextFlag_eq
  case nextFlag_eq =>
    rw [hlogin.nextFlag_eq, h.nextFlag_eq, List.length_append, List.length_singleton]
  case owner =>
    intro p entry hentry
    simp only [hlogin.online_eq] at hentry
    by_cases hp : p = success.record.playerId
    · subst hp
      rw [Function.update_self, Option.some.injEq] at hentry
      subst hentry
      exact ⟨_, _, hnew, h.live_new hlogin, rfl, h.nextFlag_eq, rfl⟩
    · rw [Function.update_of_ne hp] at hentry
      obtain ⟨i, x, hx, hlive, hplayer, hi, hsession⟩ := h.owner p entry hentry
      exact ⟨i, x, hkeep hx, (h.live_logIn hlogin hx).mpr ⟨hlive, hplayer ▸ hp⟩, hplayer, hi,
        hsession⟩
  case entry_of_live =>
    intro i x hx hlive
    simp only [hlogin.online_eq]
    rcases getElem?_handOut hx with hx | ⟨rfl, rfl⟩
    · obtain ⟨hlive, hplayer⟩ := (h.live_logIn hlogin hx).mp hlive
      rw [Function.update_of_ne hplayer]
      exact h.entry_of_live i x hx hlive
    · exact ⟨_, Function.update_self .., h.nextFlag_eq⟩
  case latest =>
    intro i j x y hx hlive hy hplayer
    rcases getElem?_handOut hx with hx | ⟨rfl, rfl⟩
    · obtain ⟨hlive, hother⟩ := (h.live_logIn hlogin hx).mp hlive
      rcases getElem?_handOut hy with hy | ⟨rfl, rfl⟩
      · exact h.latest i j x y hx hlive hy hplayer
      · exact absurd hplayer.symm hother
    · rcases getElem?_handOut hy with hy | ⟨rfl, rfl⟩
      · exact (List.getElem?_eq_some_iff.mp hy).1.le
      · exact le_rfl

end Login

/-! ### Logouts -/

/-- A logout takes the player offline, or changes nothing. -/
theorem logout_online (r : Registry) (p sessionId : ℕ) :
    (r.logout p sessionId).online = r.online ∨
      ∃ entry, r.online p = some entry ∧ entry.sessionId = sessionId ∧
        (r.logout p sessionId).online = Function.update r.online p none := by
  rw [Registry.logout]
  split
  · exact Or.inl rfl
  · split
    · exact Or.inr ⟨_, ‹_›, ‹_›, rfl⟩
    · exact Or.inl rfl

@[simp] theorem logout_revoked (r : Registry) (p sessionId : ℕ) :
    (r.logout p sessionId).revoked = r.revoked := by
  rw [Registry.logout]
  split
  · rfl
  · split <;> rfl

@[simp] theorem logout_nextFlag (r : Registry) (p sessionId : ℕ) :
    (r.logout p sessionId).nextFlag = r.nextFlag := by
  rw [Registry.logout]
  split
  · rfl
  · split <;> rfl

/-- A logout of a session that is online takes its player offline. -/
theorem logout_of_online {r : Registry} {p : ℕ} {entry : OnlineEntry}
    (h : r.online p = some entry) :
    (r.logout p entry.sessionId).online = Function.update r.online p none := by
  rw [Registry.logout, h]
  simp

/-- What was handed out, after the `k`-th connection has logged out. -/
theorem getElem?_logout {k i : ℕ} {x z : Issued}
    (hz : (s.issued.set k { x with loggedOut := true })[i]? = some z) :
    (i = k ∧ z = { x with loggedOut := true }) ∨ i ≠ k ∧ s.issued[i]? = some z := by
  rw [List.getElem?_set] at hz
  by_cases hik : k = i
  · left
    simp only [hik, if_true] at hz
    split at hz
    · exact ⟨hik.symm, (Option.some.inj hz).symm⟩
    · cases hz
  · right
    rw [if_neg hik] at hz
    exact ⟨Ne.symm hik, hz⟩

theorem logout (h : s.Tied) {k : ℕ} {x : Issued} (hx : s.issued[k]? = some x)
    (hown : s.OwnLogout (.logout k)) :
    (Logins.mk (s.registry.logout x.player x.success.sessionId)
      (s.issued.set k { x with loggedOut := true })).Tied := by
  have hlive : ∀ {i : ℕ} {z : Issued}, s.issued[i]? = some z →
      (Logins.mk (s.registry.logout x.player x.success.sessionId)
        (s.issued.set k { x with loggedOut := true })).live z = s.live z := by
    intro i z hz
    simp [live]
  have hdead : (Logins.mk (s.registry.logout x.player x.success.sessionId)
      (s.issued.set k { x with loggedOut := true })).live { x with loggedOut := true } =
        false := by
    simp [live]
  -- the entry that is taken away, if any, is that of the connection that closes
  have hentry : ∀ entry, s.registry.online x.player = some entry →
      entry.sessionId = x.success.sessionId → entry.revoked = k := by
    intro entry honline hsession
    obtain ⟨j, y, hy, hlivey, hplayer, hj, hsame⟩ := h.owner _ _ honline
    rw [hj]
    exact hown x j y hx hy hlivey hplayer (hsame.trans hsession)
  constructor
  case flag_eq =>
    intro i z hz
    rcases getElem?_logout hz with ⟨rfl, rfl⟩ | ⟨-, hz⟩
    · exact h.flag_eq i x hx
    · exact h.flag_eq i z hz
  case nextFlag_eq =>
    rw [logout_nextFlag, List.length_set]
    exact h.nextFlag_eq
  case owner =>
    intro p entry honline
    have hbefore : s.registry.online p = some entry ∧
        ¬ (p = x.player ∧ entry.sessionId = x.success.sessionId) := by
      rcases logout_online s.registry x.player x.success.sessionId with
        hsame | ⟨entry', -, -, hremoved⟩
      · rw [hsame] at honline
        refine ⟨honline, ?_⟩
        rintro ⟨rfl, hsession⟩
        rw [← hsession, logout_of_online honline] at hsame
        rw [← hsame, Function.update_self] at honline
        cases honline
      · rw [hremoved] at honline
        by_cases hp : p = x.player
        · rw [hp, Function.update_self] at honline
          cases honline
        · rw [Function.update_of_ne hp] at honline
          exact ⟨honline, fun hand => hp hand.1⟩
    obtain ⟨i, z, hz, hlivez, hplayer, hi, hsession⟩ := h.owner p entry hbefore.1
    have hik : i ≠ k := by
      rintro rfl
      rw [hx, Option.some.injEq] at hz
      exact hbefore.2 ⟨hz ▸ hplayer.symm, hz ▸ hsession.symm⟩
    refine ⟨i, z, ?_, (hlive hz).trans hlivez, hplayer, hi, hsession⟩
    rwa [List.getElem?_set_ne hik.symm]
  case entry_of_live =>
    intro i z hz hlivez
    rcases getElem?_logout hz with ⟨rfl, rfl⟩ | ⟨hik, hz⟩
    · rw [hdead] at hlivez
      cases hlivez
    · obtain ⟨entry, honline, hi⟩ := h.entry_of_live i z hz ((hlive hz).symm.trans hlivez)
      refine ⟨entry, ?_, hi⟩
      rcases logout_online s.registry x.player x.success.sessionId with
        hsame | ⟨entry', honline', hsession, hremoved⟩
      · rw [hsame]
        exact honline
      · rw [hremoved, Function.update_of_ne ?_]
        · exact honline
        · intro hplayer
          rw [hplayer, honline', Option.some.injEq] at honline
          subst honline
          exact hik (hi.symm.trans (hentry entry' honline' hsession))
  case latest =>
    intro i j z y hz hlivez hy hplayer
    rcases getElem?_logout hz with ⟨rfl, rfl⟩ | ⟨-, hbefore⟩
    · rw [hdead] at hlivez
      cases hlivez
    · have hlast := h.latest i j z
      have hlivez' := (hlive hbefore).symm.trans hlivez
      rcases getElem?_logout hy with ⟨rfl, rfl⟩ | ⟨-, hy'⟩
      · exact hlast x hbefore hlivez' hx hplayer
      · exact hlast y hbefore hlivez' hy' hplayer

end Tied

/-! ## Calls -/

variable {verify : String → String → Option Bool} {s : Logins}

/-- What a call does: nothing, a login, or a logout. -/
inductive Called (s : Logins) : RegistryCall → Logins → Prop
  | rejected (c : RegistryCall) (hlogin : ∀ i, c ≠ .logout i) : Called s c s
  | loggedIn (c : RegistryCall) (hlogin : ∀ i, c ≠ .logout i) (success : AuthSuccess)
      (r' : Registry) (h : s.registry.LogsIn success r') :
      Called s c ⟨r', s.issued ++ [⟨success, false⟩]⟩
  | unknown (k : ℕ) (hx : s.issued[k]? = none) : Called s (.logout k) s
  | loggedOut (k : ℕ) (x : Issued) (hx : s.issued[k]? = some x) : Called s (.logout k)
      ⟨s.registry.logout x.player x.success.sessionId,
        s.issued.set k { x with loggedOut := true }⟩

theorem called_handOut {c : RegistryCall} (hlogin : ∀ i, c ≠ .logout i)
    {outcome : Except RegistryError (AuthSuccess × Registry)}
    (h : ∀ success r', outcome = .ok (success, r') → s.registry.LogsIn success r') :
    Called s c (s.handOut outcome) := by
  cases outcome with
  | error error => exact .rejected c hlogin
  | ok handed => exact .loggedIn c hlogin handed.1 handed.2 (h _ _ rfl)

theorem called (s : Logins) (c : RegistryCall) : Called s c (s.call verify c) := by
  cases c with
  | register email username password deviceLabel hash key now =>
    exact called_handOut (by simp) fun _ _ => Registry.logsIn_of_register
  | authenticatePassword identifier password deviceLabel key now =>
    exact called_handOut (by simp) fun _ _ => Registry.logsIn_of_authenticatePassword
  | authenticateSession key =>
    exact called_handOut (by simp) fun _ _ => Registry.logsIn_of_authenticateSession
  | logout k =>
    rw [call]
    split
    · exact .unknown k ‹_›
    · exact .loggedOut k _ ‹_›

theorem Called.tied {c : RegistryCall} {s' : Logins} (h : Called s c s') (htied : s.Tied)
    (hown : s.OwnLogout c) : s'.Tied := by
  cases h with
  | rejected => exact htied
  | loggedIn _ _ success r' hlogin => exact htied.handOut hlogin
  | unknown => exact htied
  | loggedOut k x hx => exact htied.logout hx hown

/-- A call whose logout is the connection's own keeps to one session. -/
theorem Called.keepsOne {c : RegistryCall} {s' : Logins} (h : Called s c s') (htied : s.Tied)
    (hown : s.OwnLogout c) : s.KeepsOne c s' := by
  refine ⟨(h.tied htied hown).oneLive, ?_, ?_⟩
  · intro i j x y hx hlive hj hy hplayer
    -- only a login makes the list longer, and the new one is the player's
    cases h with
    | loggedIn _ _ success r' hlogin =>
      rcases Tied.getElem?_handOut hy with hy | ⟨-, rfl⟩
      · exact absurd (List.getElem?_eq_some_iff.mp hy).1 (Nat.not_lt.mpr hj)
      · by_contra hrevoked
        have hlive' : (Logins.mk r' (s.issued ++ [⟨success, false⟩])).live x := by
          simp only [live, Bool.and_eq_true, Bool.not_eq_true'] at hlive ⊢
          exact ⟨by simpa using hrevoked, hlive.2⟩
        exact ((htied.live_logIn hlogin hx).mp hlive').2 hplayer.symm
    | rejected | unknown =>
      exact absurd (List.getElem?_eq_some_iff.mp hy).1 (Nat.not_lt.mpr hj)
    | loggedOut k z hz =>
      refine absurd (List.getElem?_eq_some_iff.mp hy).1 (Nat.not_lt.mpr ?_)
      rwa [List.length_set]
  · rintro i j x y entry rfl hx hy hij honline howner
    cases h with
    | rejected _ hlogin => exact absurd rfl (hlogin i)
    | loggedIn _ hlogin => exact absurd rfl (hlogin i)
    | unknown => exact honline
    | loggedOut _ z hz =>
      obtain rfl : z = x := Option.some.inj (hz.symm.trans hx)
      rcases Tied.logout_online s.registry z.player z.success.sessionId with
        hsame | ⟨entry', honline', hsession, -⟩
      · exact (congrFun hsame _).trans honline
      · -- the session that is removed is the connection's own, which is not the later one's
        obtain rfl : entry' = entry := Option.some.inj (honline'.symm.trans honline)
        obtain ⟨k, u, hu, hliveu, hplayer, hk, hsame⟩ := htied.owner _ _ honline
        have := hown z k u hx hu hliveu hplayer (hsame.trans hsession)
        rw [howner, htied.flag_eq j y hy] at hk
        omega

/-- A call that keeps to one session is no logout from another connection's session. -/
theorem Called.ownLogout {c : RegistryCall} {s' : Logins} (h : Called s c s') (htied : s.Tied)
    (hkeeps : s.KeepsOne c s') : s.OwnLogout c := by
  cases h with
  | rejected c hlogin =>
    cases c with
    | logout k => exact absurd rfl (hlogin k)
    | _ => trivial
  | loggedIn c hlogin =>
    cases c with
    | logout k => exact absurd rfl (hlogin k)
    | _ => trivial
  | unknown k hnone =>
    intro x j y hx
    rw [hnone] at hx
    cases hx
  | loggedOut k z hz =>
    intro x j y hx hy hlive hplayer hsession
    obtain rfl : z = x := Option.some.inj (hz.symm.trans hx)
    obtain ⟨entry, honline, hj⟩ := htied.entry_of_live j y hy hlive
    by_contra hne
    -- the live connection is a later one, and its entry is taken away
    have hlater : k < j := lt_of_le_of_ne (htied.latest j k y z hy hlive hx hplayer.symm)
      (Ne.symm hne)
    obtain ⟨i, w, hw, -, -, hi, hsame⟩ := htied.owner _ _ honline
    obtain rfl : i = j := hi.symm.trans hj
    obtain rfl : w = y := Option.some.inj (hw.symm.trans hy)
    rw [hplayer] at honline
    have hkept := hkeeps.spares k i z w entry rfl hx hy hlater honline
      (hj.trans (htied.flag_eq i w hy).symm)
    have hremoved := Tied.logout_of_online honline
    rw [← hsame, hsession] at hremoved
    change (s.registry.logout z.player z.success.sessionId).online z.player = some entry at hkept
    rw [hremoved, Function.update_self] at hkept
    cases hkept

/-- A run of calls in which each logout is of the connection's own session. -/
def OwnRun (verify : String → String → Option Bool) (s : Logins) (c : RegistryCall)
    (s' : Logins) : Prop :=
  s.OwnLogout c ∧ s' = s.call verify c

theorem tied_of_run {db : Database} {calls : List RegistryCall}
    (h : Trace (OwnRun verify) (opened db) calls s) : s.Tied := by
  refine h.invariant Tied ?_ (tied_opened db)
  rintro s c s' htied ⟨hown, rfl⟩
  exact (called s c).tied htied hown

/-- After any logins and logouts in which each connection that logged out shared its
session with no other live connection of its player, each player has at most one live
connection, and a further call keeps to that exactly if it is of this kind as well. -/
theorem one_session_iff {db : Database} {calls : List RegistryCall}
    (h : Trace (OwnRun verify) (opened db) calls s) :
    s.OneLive ∧ ∀ c, s.KeepsOne c (s.call verify c) ↔ s.OwnLogout c := by
  have htied := tied_of_run h
  refine ⟨htied.oneLive, fun c => ⟨fun hkeeps => ?_, fun hown => ?_⟩⟩
  · exact (called s c).ownLogout htied hkeeps
  · exact (called s c).keepsOne htied hown

/-! ## One player with three connections -/

/-- A password check for hashes that are the passwords themselves. -/
def plainText (password hash : String) : Option Bool := some (password = hash)

/-- Nobody has registered yet. -/
def noUsers : Database := ⟨[], [], 1, 1⟩

/-- A new player registers. -/
def registers : RegistryCall :=
  .register "alice@home.net" "alice" "hunter2hunter" none (some "hunter2hunter") "key" 0

/-- The player logs in with the password. -/
def logsInAgain : RegistryCall :=
  .authenticatePassword "alice" "hunter2hunter" none "another key" 1

/-- The second login revokes the first connection, which may then log out. -/
theorem one_session_two_logins :
    ∃ s : Logins, s.issued.length = 2 ∧ s.OneLive ∧
      s.KeepsOne (.logout 0) (s.call plainText (.logout 0)) := by
  have hrun : Trace (OwnRun plainText) (opened noUsers) [registers, logsInAgain]
      (((opened noUsers).call plainText registers).call plainText logsInAgain) :=
    .cons ⟨trivial, rfl⟩ (.cons ⟨trivial, rfl⟩ (.nil _))
  obtain ⟨hone, hiff⟩ := one_session_iff hrun
  refine ⟨_, by decide +kernel, hone, (hiff (.logout 0)).mpr ?_⟩
  intro x j y hx hy hlive hplayer hsession
  have hfirst : (((opened noUsers).call plainText registers).call plainText
      logsInAgain).issued.map (fun x => x.success.sessionId) = [1, 2] := by
    decide +kernel
  have hx' := congrArg (fun l : List ℕ => l[0]?) hfirst
  have hy' := congrArg (fun l : List ℕ => l[j]?) hfirst
  simp only [List.getElem?_map, hx, hy, Option.map_some, List.getElem?_cons_zero,
    Option.some.injEq] at hx' hy'
  -- the two sessions have different ids
  rw [hsession, hx'] at hy'
  match j, hy' with
  | 0, _ => rfl
  | 1, hy' => exact absurd hy' (by decide)
  | j + 2, hy' => exact absurd hy' (by simp)

/-- The state after the second connection resumed the session of the first, the first one
logged out, and the player logged in once more. -/
def resumedTwice : Logins :=
  [registers, .authenticateSession "key", .logout 0, logsInAgain].foldl (call plainText)
    (opened noUsers)

/-- The second and the third connection are both live. -/
theorem two_sessions : ¬ resumedTwice.OneLive := by
  intro hone
  have hlive : ∀ i, i = 1 ∨ i = 2 → ∃ x, resumedTwice.issued[i]? = some x ∧
      resumedTwice.live x ∧ x.player = 1 := by
    have hany : ∀ i, i = 1 ∨ i = 2 → (resumedTwice.issued[i]?).any fun x =>
        resumedTwice.live x && x.player = 1 := by
      rintro i (rfl | rfl) <;> decide +kernel
    intro i hi
    obtain ⟨x, hx, hboth⟩ := (Option.any_eq_true _ _).mp (hany i hi)
    simp only [Bool.and_eq_true, decide_eq_true_eq] at hboth
    exact ⟨x, hx, hboth⟩
  obtain ⟨x, hx, hlivex, hplayerx⟩ := hlive 1 (Or.inl rfl)
  obtain ⟨y, hy, hlivey, hplayery⟩ := hlive 2 (Or.inr rfl)
  exact absurd (hone 1 2 x y hx hy hlivex hlivey (hplayerx.trans hplayery.symm)) (by decide)

end Logins

end VibePoker.Server
