import VibePoker.Net.Protocol

/-!
# The registry

The users, their sessions and who is online. Each operation runs as one step: the
ones that log a user in hold the write lock throughout. A row of `users` stands for
the rows of `user_password` and `lifetime_stats` as well, which are inserted with
it. What comes from outside is an argument: the time, the random session key, and
the salted hash of a new password; `verify` is the password check of the hash
library.

A `revoked` flag is shared by the online entry and the connection it belongs to.
Flags are numbered in the order in which they are made, and the registry keeps their
values.

## Main definitions

* `Registry.register`, `Registry.authenticatePassword`, `Registry.authenticateSession` —
  the ways to log in
* `Registry.logout` — what a closing connection calls
* `Registry.updateStats` — what a player has achieved
-/

namespace VibePoker.Server

open VibePoker.Net

inductive RegistryError
  | invalidUsername
  | invalidEmail
  | invalidPassword
  | usernameInUse
  | emailInUse
  | badCredentials
  | sessionRevoked
  | unknownSession
  | database
  | hash
deriving DecidableEq, Repr

structure PlayerRecord where
  playerId : ℕ
  username : String
  createdUnix : ℕ
  stats : LifetimeStats
deriving DecidableEq, Repr

/-- What a login hands out; `revoked` is the number of the flag. -/
structure AuthSuccess where
  record : PlayerRecord
  sessionKey : String
  sessionId : ℕ
  revoked : ℕ
deriving DecidableEq, Repr

/-- The session that the registry has for an online player. -/
structure OnlineEntry where
  sessionId : ℕ
  revoked : ℕ
  username : String
deriving DecidableEq, Repr

/-! ## Tables -/

structure UserRow where
  id : ℕ
  email : String
  username : String
  createdAt : ℕ
  passwordHash : String
  stats : LifetimeStats
deriving DecidableEq, Repr

structure SessionRow where
  id : ℕ
  userId : ℕ
  key : String
  deviceLabel : Option String
  createdAt : ℕ
  revokedAt : Option ℕ
deriving DecidableEq, Repr

/-- The database: the two tables with the next number of each. -/
structure Database where
  users : List UserRow
  sessions : List SessionRow
  nextUserId : ℕ
  nextSessionId : ℕ
deriving DecidableEq, Repr

/-- A new database, as the migrations leave it. -/
def Database.migrated : Database := ⟨[], [], 1, 1⟩

structure Registry where
  db : Database
  online : ℕ → Option OnlineEntry
  revoked : ℕ → Bool
  nextFlag : ℕ

/-! ## Queries -/

namespace Database

/-- Revoke the live sessions of a user and insert a new one. Keys are unique. -/
def issueSession (db : Database) (userId : ℕ) (deviceLabel : Option String) (key : String)
    (now : ℕ) : Except RegistryError (ℕ × Database) :=
  if db.sessions.any fun row => row.key = key then .error .database
  else
    let revoked := db.sessions.map fun row =>
      if row.userId = userId ∧ row.revokedAt = none then { row with revokedAt := some now }
      else row
    .ok (db.nextSessionId, { db with
      sessions := revoked ++ [⟨db.nextSessionId, userId, key, deviceLabel, now, none⟩]
      nextSessionId := db.nextSessionId + 1 })

/-- Insert a new user, with a password and no statistics yet. -/
def insertUser (db : Database) (email username passwordHash : String) (now : ℕ) :
    ℕ × Database :=
  (db.nextUserId, { db with
    users := db.users ++ [⟨db.nextUserId, email, username, now, passwordHash, default⟩]
    nextUserId := db.nextUserId + 1 })

/-- The user with this e-mail address or this name; only the former contain an `@`. -/
def findUser (db : Database) (identifier : String) : Option UserRow :=
  if identifier.toList.contains '@' then db.users.find? fun user => user.email = identifier
  else db.users.find? fun user => user.username = identifier

/-- The session with this key, and its user. -/
def findSession (db : Database) (key : String) : Option (SessionRow × UserRow) := do
  let session ← db.sessions.find? fun row => row.key = key
  let user ← db.users.find? fun user => user.id = session.userId
  some (session, user)

end Database

/-! ## Operations -/

namespace Registry

/-- Open the registry on what a database file holds. -/
def opened (db : Database) : Registry where
  db := db
  online _ := none
  revoked _ := false
  nextFlag := 0

/-- Replace the online entry of a player, and revoke the one before. -/
def installOnline (r : Registry) (playerId sessionId : ℕ) (username : String) : ℕ × Registry :=
  let flag := r.nextFlag
  let revoked := Function.update r.revoked flag false
  (flag, { r with
    online := Function.update r.online playerId (some ⟨sessionId, flag, username⟩)
    revoked := match r.online playerId with
      | none => revoked
      | some prev => Function.update revoked prev.revoked true
    nextFlag := flag + 1 })

/-- Go online with a session of the database. -/
def logIn (r : Registry) (db : Database) (record : PlayerRecord) (sessionKey : String)
    (sessionId : ℕ) : AuthSuccess × Registry :=
  let installed := { r with db := db }.installOnline record.playerId sessionId record.username
  (⟨record, sessionKey, sessionId, installed.1⟩, installed.2)

/-- Create a user and log in. `hash` is the outcome of hashing the password. -/
def register (r : Registry) (email username password : String) (deviceLabel : Option String)
    (hash : Option String) (key : String) (now : ℕ) :
    Except RegistryError (AuthSuccess × Registry) := do
  if !isValidEmail email then throw .invalidEmail
  if !isValidUsername username then throw .invalidUsername
  if !isValidPassword password then throw .invalidPassword
  let some hash := hash | throw .hash
  if r.db.users.any fun user => user.username = username then throw .usernameInUse
  if r.db.users.any fun user => user.email = email then throw .emailInUse
  let (userId, db) := r.db.insertUser email username hash now
  let (sessionId, db) ← db.issueSession userId deviceLabel key now
  return r.logIn db ⟨userId, username, now, default⟩ key sessionId

/-- Log in with a new session. `verify` fails on a hash that it cannot read. -/
def authenticatePassword (verify : String → String → Option Bool) (r : Registry)
    (identifier password : String) (deviceLabel : Option String) (key : String) (now : ℕ) :
    Except RegistryError (AuthSuccess × Registry) := do
  let some user := r.db.findUser identifier | throw .badCredentials
  let some matching := verify password user.passwordHash | throw .hash
  if !matching then throw .badCredentials
  let (sessionId, db) ← r.db.issueSession user.id deviceLabel key now
  return r.logIn db ⟨user.id, user.username, user.createdAt, user.stats⟩ key sessionId

/-- Log in with a session that has not been revoked, under its own id. -/
def authenticateSession (r : Registry) (key : String) :
    Except RegistryError (AuthSuccess × Registry) := do
  let some (session, user) := r.db.findSession key | throw .unknownSession
  if session.revokedAt.isSome then throw .sessionRevoked
  return r.logIn r.db ⟨user.id, user.username, user.createdAt, user.stats⟩ key session.id

/-- Take a player offline, if the entry is still that of this session. -/
def logout (r : Registry) (playerId sessionId : ℕ) : Registry :=
  match r.online playerId with
  | none => r
  | some entry =>
    if entry.sessionId = sessionId then
      { r with online := Function.update r.online playerId none }
    else r

/-- Store the statistics of a player who is online. -/
def updateStats (r : Registry) (playerId : ℕ) (stats : LifetimeStats) : Registry :=
  if (r.online playerId).isNone then r
  else { r with db := { r.db with
    users := r.db.users.map fun user =>
      if user.id = playerId then { user with stats := stats } else user } }

/-! ## What a login does -/

variable {r r' : Registry} {success : AuthSuccess}

/-- Whatever the way, a login changes the database and puts the new session online. -/
def LogsIn (r : Registry) (success : AuthSuccess) (r' : Registry) : Prop :=
  ∃ db, (success, r') = r.logIn db success.record success.sessionKey success.sessionId

theorem logsIn_of_register {email username password : String} {deviceLabel hash : Option String}
    {key : String} {now : ℕ}
    (h : r.register email username password deviceLabel hash key now = .ok (success, r')) :
    LogsIn r success r' := by
  simp only [register, bind, Except.bind, throw, throwThe, MonadExceptOf.throw, pure,
    Except.pure] at h
  repeat' split at h
  all_goals cases h
  exact ⟨_, rfl⟩

theorem logsIn_of_authenticatePassword {verify : String → String → Option Bool}
    {identifier password : String} {deviceLabel : Option String} {key : String} {now : ℕ}
    (h : r.authenticatePassword verify identifier password deviceLabel key now =
      .ok (success, r')) : LogsIn r success r' := by
  simp only [authenticatePassword, bind, Except.bind, throw, throwThe, MonadExceptOf.throw, pure,
    Except.pure] at h
  repeat' split at h
  all_goals cases h
  exact ⟨_, rfl⟩

theorem logsIn_of_authenticateSession {key : String}
    (h : r.authenticateSession key = .ok (success, r')) : LogsIn r success r' := by
  simp only [authenticateSession, bind, Except.bind, throw, throwThe, MonadExceptOf.throw, pure,
    Except.pure] at h
  repeat' split at h
  all_goals cases h
  exact ⟨_, rfl⟩

namespace LogsIn

/-- The connection gets a new flag. -/
theorem flag_eq (h : LogsIn r success r') : success.revoked = r.nextFlag := by
  obtain ⟨db, h⟩ := h
  exact congrArg (fun p => p.1.revoked) h

theorem nextFlag_eq (h : LogsIn r success r') : r'.nextFlag = r.nextFlag + 1 := by
  obtain ⟨db, h⟩ := h
  exact congrArg (fun p => p.2.nextFlag) h

/-- The entry of the player is that of the new session. -/
theorem online_eq (h : LogsIn r success r') : r'.online = Function.update r.online
    success.record.playerId
    (some ⟨success.sessionId, r.nextFlag, success.record.username⟩) := by
  obtain ⟨db, h⟩ := h
  exact congrArg (fun p => p.2.online) h

/-- Of the old flags, a login sets that of the entry before. -/
theorem revoked_eq (h : LogsIn r success r') {flag : ℕ} (hold : flag ≠ r.nextFlag) :
    r'.revoked flag = (r.revoked flag ||
      (r.online success.record.playerId).any fun prev => prev.revoked = flag) := by
  obtain ⟨db, h⟩ := h
  have hrevoked := congrArg (fun p => p.2.revoked flag) h
  simp only [logIn, installOnline] at hrevoked
  rw [hrevoked]
  cases r.online success.record.playerId with
  | none => simp [Function.update_of_ne hold]
  | some prev =>
    by_cases hflag : flag = prev.revoked
    · simp [hflag]
    · simp [Function.update_of_ne hflag, Function.update_of_ne hold, Ne.symm hflag]

/-- The new flag is not set. -/
theorem not_revoked (h : LogsIn r success r')
    (hentry : ∀ entry, r.online success.record.playerId = some entry →
      entry.revoked ≠ r.nextFlag) : r'.revoked success.revoked = false := by
  rw [h.flag_eq]
  obtain ⟨db, h⟩ := h
  have hrevoked := congrArg (fun p => p.2.revoked r.nextFlag) h
  simp only [logIn, installOnline] at hrevoked
  rw [hrevoked]
  cases honline : r.online success.record.playerId with
  | none => simp
  | some prev => simp [Function.update_of_ne (hentry prev honline).symm]

end LogsIn

end Registry

end VibePoker.Server
