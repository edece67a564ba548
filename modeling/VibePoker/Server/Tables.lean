import VibePoker.Server.Directory

/-!
# The tables of a directory

The rows of the database that hold a directory of players. A user's row is its account
with its number; the sessions that are not revoked are those of the current keys.

## Main definitions

* `Database.Stores` — the tables hold the accounts and the keys of a directory

## Main results

* `Database.Stores.issueSession`, `Database.Stores.insertUser` — the writes of a login
* `Database.Stores.find?_users`, `Database.Stores.find?_id` — its queries
-/

namespace VibePoker.Server

open VibePoker.Net

/-! ## Directories -/

namespace Directory

variable {d : Directory}

/-- A new key takes the place of the last one of its player. -/
theorem isCurrent_append {p : ℕ} {key : String} {i : ℕ} {entry : ℕ × String}
    (hentry : d.issued[i]? = some entry) :
    isCurrent { d with issued := d.issued ++ [(p, key)] } i =
      (d.isCurrent i && decide (p ≠ entry.1)) := by
  have hi := (List.getElem?_eq_some_iff.mp hentry).1
  simp only [isCurrent, List.getElem?_append_left hi, hentry,
    List.drop_append_of_le_length (Nat.succ_le_of_lt hi), List.any_append, List.any_cons,
    List.any_nil, Bool.or_false, Bool.not_or, decide_not]

/-- The new key is current. -/
theorem isCurrent_new {p : ℕ} {key : String} :
    isCurrent { d with issued := d.issued ++ [(p, key)] } d.issued.length = true := by
  simp [isCurrent]

/-- Only the keys matter for which of them are current. -/
@[simp] theorem isCurrent_goOnline {p sessionId i : ℕ} :
    (d.goOnline p sessionId).isCurrent i = d.isCurrent i :=
  rfl

end Directory

/-! ## Tables -/

/-- The row of a player's account. -/
def Account.row (account : Account) (playerId : ℕ) : UserRow :=
  ⟨playerId, account.email, account.username, account.createdAt, account.passwordHash,
    account.stats⟩

namespace Database

/-- Revoke a live session of the player. -/
def revokeSession (userId now : ℕ) (row : SessionRow) : SessionRow :=
  if row.userId = userId ∧ row.revokedAt = none then { row with revokedAt := some now } else row

/-- The database with a new session. -/
def withSession (db : Database) (userId : ℕ) (deviceLabel : Option String) (key : String)
    (now : ℕ) : Database :=
  { db with
    sessions := db.sessions.map (revokeSession userId now) ++
      [⟨db.nextSessionId, userId, key, deviceLabel, now, none⟩]
    nextSessionId := db.nextSessionId + 1 }

theorem issueSession_eq (db : Database) (userId : ℕ) (deviceLabel : Option String)
    (key : String) (now : ℕ) : db.issueSession userId deviceLabel key now =
      if db.sessions.any fun row => row.key = key then .error .database
      else .ok (db.nextSessionId, db.withSession userId deviceLabel key now) :=
  rfl

end Database

/-- The tables hold the accounts and the keys: both are numbered from one on, and the
sessions that are not revoked are those of the current keys. -/
structure Database.Stores (db : Database) (d : Directory) : Prop where
  users_eq : db.users = d.accounts.mapIdx fun i account => account.row (i + 1)
  nextUserId_eq : db.nextUserId = d.accounts.length + 1
  sessions_eq : db.sessions.map (fun row => (row.userId, row.key)) = d.issued
  id_eq : ∀ i row, db.sessions[i]? = some row → row.id = i + 1
  live_eq : ∀ i row, db.sessions[i]? = some row → row.revokedAt.isNone = d.isCurrent i
  nextSessionId_eq : db.nextSessionId = d.issued.length + 1
  known : ∀ entry ∈ d.issued, 1 ≤ entry.1 ∧ entry.1 ≤ d.accounts.length

namespace Database.Stores

variable {db : Database} {d : Directory}

/-- A row of the sessions is an entry of the keys. -/
theorem getElem?_issued (h : db.Stores d) {i : ℕ} {row : SessionRow}
    (hrow : db.sessions[i]? = some row) : d.issued[i]? = some (row.userId, row.key) := by
  rw [← h.sessions_eq, List.getElem?_map, hrow, Option.map_some]

theorem length_sessions (h : db.Stores d) : db.sessions.length = d.issued.length := by
  rw [← h.sessions_eq, List.length_map]

theorem any_key (h : db.Stores d) {key : String} :
    (d.issued.any fun entry => entry.2 = key) = db.sessions.any fun row => row.key = key := by
  rw [← h.sessions_eq, List.any_map]
  rfl

/-- A row of the sessions with a new one is an old row, revoked if it was the player's, or
the new one. -/
theorem getElem?_withSession (h : db.Stores d) {p : ℕ} {deviceLabel : Option String}
    {key : String} {now i : ℕ} {row : SessionRow}
    (hrow : (db.withSession p deviceLabel key now).sessions[i]? = some row) :
    (∃ old, db.sessions[i]? = some old ∧ row = revokeSession p now old) ∨
      i = d.issued.length ∧ row = ⟨db.nextSessionId, p, key, deviceLabel, now, none⟩ := by
  rw [withSession] at hrow
  rcases lt_or_ge i db.sessions.length with hlt | hge
  · rw [List.getElem?_append_left (by simpa using hlt), List.getElem?_map] at hrow
    obtain ⟨old, hold, rfl⟩ := Option.map_eq_some_iff.mp hrow
    exact Or.inl ⟨old, hold, rfl⟩
  · rw [List.getElem?_append_right (by simpa using hge), List.length_map,
      List.getElem?_singleton] at hrow
    split at hrow
    · refine Or.inr ⟨?_, (Option.some.inj hrow).symm⟩
      rw [← h.length_sessions]
      omega
    · cases hrow

/-- Whether some account has a property that both see. -/
theorem any_users (h : db.Stores d) (seen : UserRow → Bool) (p : Account → Bool)
    (hseen : ∀ i account, seen (account.row i) = p account) :
    db.users.any seen = d.accounts.any p := by
  rw [h.users_eq, List.mapIdx_eq_zipIdx_map, List.any_map]
  calc d.accounts.zipIdx.any (seen ∘ fun x => x.1.row (x.2 + 1))
      = d.accounts.zipIdx.any (p ∘ Prod.fst) := by
        refine congrArg (d.accounts.zipIdx.any ·) (funext fun x => ?_)
        exact hseen _ _
    _ = (d.accounts.zipIdx.map Prod.fst).any p := by rw [List.any_map]
    _ = d.accounts.any p := by rw [List.zipIdx_map_fst]

/-- The first account with a property that both see. -/
theorem find?_users (h : db.Stores d) (seen : UserRow → Bool) (p : Account → Bool)
    (hseen : ∀ i account, seen (account.row i) = p account) :
    db.users.find? seen = (d.accounts.findIdx? p).bind fun i =>
      (d.accounts[i]?).map fun account => account.row (i + 1) := by
  have hindex : db.users.findIdx? seen = d.accounts.findIdx? p := by
    have hzip : d.accounts.zipIdx.findIdx? (p ∘ Prod.fst) = d.accounts.findIdx? p := by
      rw [← List.findIdx?_map, List.zipIdx_map_fst]
    rw [h.users_eq, List.mapIdx_eq_zipIdx_map, List.findIdx?_map, ← hzip]
    refine congrArg (d.accounts.zipIdx.findIdx? ·) (funext fun x => ?_)
    exact hseen _ _
  rw [List.find?_eq_bind_findIdx?_getElem?, hindex, h.users_eq]
  simp only [List.getElem?_mapIdx]

/-- The row of a user by its id. -/
theorem find?_id (h : db.Stores d) {playerId : ℕ} (hfirst : 1 ≤ playerId) :
    db.users.find? (fun user => user.id = playerId) =
      (d.accounts[playerId - 1]?).map fun account => account.row playerId := by
  rw [h.users_eq]
  cases haccount : d.accounts[playerId - 1]? with
  | none =>
    have hlength := List.getElem?_eq_none_iff.mp haccount
    rw [Option.map_none, List.find?_eq_none]
    intro user huser
    obtain ⟨i, hi, rfl⟩ := List.mem_mapIdx.mp huser
    have hne : i + 1 ≠ playerId := by omega
    exact fun hid => hne (of_decide_eq_true hid)
  | some account =>
    obtain ⟨hlt, hget⟩ := List.getElem?_eq_some_iff.mp haccount
    rw [Option.map_some, List.find?_eq_some_iff_getElem]
    refine ⟨by simp [Account.row], playerId - 1, by simpa using hlt, ?_, fun j hj => ?_⟩
    · rw [List.getElem_mapIdx, hget, Nat.sub_add_cancel hfirst]
    · have hne : j + 1 ≠ playerId := by omega
      rw [List.getElem_mapIdx, Bool.not_eq_true', decide_eq_false_iff_not]
      exact hne

/-- Handing out a key that is not new is refused. -/
theorem issueSession_taken (h : db.Stores d) {key : String}
    (htaken : (d.issued.any fun entry => entry.2 = key) = true) (p : ℕ)
    (deviceLabel : Option String) (now : ℕ) :
    db.issueSession p deviceLabel key now = .error .database := by
  rw [Database.issueSession_eq, ← h.any_key, if_pos htaken]

/-- A new key revokes the sessions of its player, and is recorded. -/
theorem issueSession (h : db.Stores d) {key : String}
    (hnew : (d.issued.any fun entry => entry.2 = key) = false) {p : ℕ} (hfirst : 1 ≤ p)
    (hlast : p ≤ d.accounts.length) (deviceLabel : Option String) (now : ℕ) :
    db.issueSession p deviceLabel key now =
        .ok (d.issued.length + 1, db.withSession p deviceLabel key now) ∧
      (db.withSession p deviceLabel key now).Stores
        { d with issued := d.issued ++ [(p, key)] } := by
  rw [Database.issueSession_eq, ← h.any_key, hnew, h.nextSessionId_eq]
  refine ⟨rfl, h.users_eq, h.nextUserId_eq, ?_, ?_, ?_, ?_, ?_⟩
  · have hkeep : ∀ row, ((revokeSession p now row).userId, (revokeSession p now row).key) =
        (row.userId, row.key) := by
      intro row
      rw [revokeSession]
      split <;> rfl
    simp only [withSession, List.map_append, List.map_map, Function.comp_def, hkeep,
      h.sessions_eq, List.map_cons, List.map_nil]
  · intro i row hrow
    rcases h.getElem?_withSession hrow with ⟨old, hold, rfl⟩ | ⟨rfl, rfl⟩
    · rw [revokeSession]
      split <;> exact h.id_eq i old hold
    · exact h.nextSessionId_eq
  · intro i row hrow
    rcases h.getElem?_withSession hrow with ⟨old, hold, rfl⟩ | ⟨rfl, rfl⟩
    · rw [Directory.isCurrent_append (h.getElem?_issued hold), ← h.live_eq i old hold]
      rw [revokeSession]
      by_cases hplayer : old.userId = p
      · cases hrevoked : old.revokedAt <;> simp [hplayer, hrevoked]
      · simp [hplayer, Ne.symm hplayer]
    · exact Directory.isCurrent_new.symm
  · rw [withSession, h.nextSessionId_eq, List.length_append, List.length_singleton]
  · intro entry hentry
    rcases List.mem_append.mp hentry with hentry | hentry
    · exact h.known entry hentry
    · obtain rfl := List.mem_singleton.mp hentry
      exact ⟨hfirst, hlast⟩

/-- Who is online is not in the tables. -/
theorem forget (h : db.Stores d) (online : ℕ → Option ℕ) :
    db.Stores { d with online := online } :=
  ⟨h.users_eq, h.nextUserId_eq, h.sessions_eq, h.id_eq, h.live_eq, h.nextSessionId_eq, h.known⟩

/-- A new user is the next account. -/
theorem insertUser (h : db.Stores d) (email username hash : String) (now : ℕ) :
    (db.insertUser email username hash now).1 = d.accounts.length + 1 ∧
      (db.insertUser email username hash now).2.Stores
        { d with accounts := d.accounts ++ [⟨email, username, hash, now, default⟩] } := by
  refine ⟨h.nextUserId_eq, ?_, ?_, h.sessions_eq, h.id_eq, h.live_eq, h.nextSessionId_eq, ?_⟩
  · rw [Database.insertUser, List.mapIdx_concat, ← h.users_eq, h.nextUserId_eq]
    rfl
  · rw [Database.insertUser, h.nextUserId_eq, List.length_append, List.length_singleton]
  · intro entry hentry
    obtain ⟨hfirst, hlast⟩ := h.known entry hentry
    rw [List.length_append]
    exact ⟨hfirst, hlast.trans (Nat.le_add_right _ _)⟩

end Database.Stores

end VibePoker.Server
