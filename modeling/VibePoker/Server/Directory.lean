import VibePoker.Server.Registry

/-!
# The directory of players

What the registry is for, without its tables: a player is known by the order of
registration, and each login with a password hands out a new key, which opens the
account until the next key of the player is handed out. Keys and sessions are numbered
in the order in which they were handed out, for all players together. Who is online is
forgotten when the server stops; the rest is not.

## Main definitions

* `Directory` — the accounts, and the keys handed out so far
* `Directory.answer` — the answer to a call
* `Registry.answer` — the same of the registry
-/

namespace VibePoker.Server

open VibePoker.Net

/-- What is known of a player. -/
structure Account where
  email : String
  username : String
  passwordHash : String
  createdAt : ℕ
  stats : LifetimeStats
deriving DecidableEq, Repr

/-- The accounts of the players 1, 2, … and the keys handed out so far, each with its player;
`online` is the session that a player is online with. -/
structure Directory where
  accounts : List Account
  issued : List (ℕ × String)
  online : ℕ → Option ℕ

/-- What a login gives the player. -/
structure Grant where
  record : PlayerRecord
  sessionKey : String
  sessionId : ℕ
deriving DecidableEq, Repr

/-- The calls on the registry; `restart` is the server's stop and its next start. -/
inductive AccountCall
  | register (email username password : String) (deviceLabel hash : Option String)
      (key : String) (now : ℕ)
  | authenticatePassword (identifier password : String) (deviceLabel : Option String)
      (key : String) (now : ℕ)
  | authenticateSession (key : String)
  | logout (playerId sessionId : ℕ)
  | updateStats (playerId : ℕ) (stats : LifetimeStats)
  | restart
deriving DecidableEq, Repr

/-- The answer to a login; the other calls have none. -/
abbrev Answer := Option (Except RegistryError Grant)

namespace Directory

/-- Nobody has registered. -/
def empty : Directory := ⟨[], [], fun _ => none⟩

/-- The record of an account. -/
def record (playerId : ℕ) (account : Account) : PlayerRecord :=
  ⟨playerId, account.username, account.createdAt, account.stats⟩

/-- The `i`-th key is the last one of its player. -/
def isCurrent (d : Directory) (i : ℕ) : Bool :=
  match d.issued[i]? with
  | none => false
  | some entry => !(d.issued.drop (i + 1)).any fun later => later.1 = entry.1

/-- The player is online with a session. -/
def goOnline (d : Directory) (playerId sessionId : ℕ) : Directory :=
  { d with online := Function.update d.online playerId (some sessionId) }

/-- Hand out a new key. -/
def issue (d : Directory) (playerId : ℕ) (account : Account) (key : String) :
    Except RegistryError (Grant × Directory) :=
  if d.issued.any fun entry => entry.2 = key then .error .database
  else
    let sessionId := d.issued.length + 1
    .ok (⟨record playerId account, key, sessionId⟩,
      { d with issued := d.issued ++ [(playerId, key)] }.goOnline playerId sessionId)

def register (d : Directory) (email username password : String) (hash : Option String)
    (key : String) (now : ℕ) : Except RegistryError (Grant × Directory) :=
  if !isValidEmail email then .error .invalidEmail
  else if !isValidUsername username then .error .invalidUsername
  else if !isValidPassword password then .error .invalidPassword
  else
    match hash with
    | none => .error .hash
    | some hash =>
      if d.accounts.any fun account => account.username = username then .error .usernameInUse
      else if d.accounts.any fun account => account.email = email then .error .emailInUse
      else
        let account : Account := ⟨email, username, hash, now, default⟩
        { d with accounts := d.accounts ++ [account] }.issue (d.accounts.length + 1) account key

/-- The account with this e-mail address or this name, by its place. -/
def find (d : Directory) (identifier : String) : Option (ℕ × Account) := do
  let i ← d.accounts.findIdx? fun account =>
    if identifier.toList.contains '@' then account.email = identifier
    else account.username = identifier
  let account ← d.accounts[i]?
  some (i + 1, account)

def authenticatePassword (verify : String → String → Option Bool) (d : Directory)
    (identifier password : String) (key : String) : Except RegistryError (Grant × Directory) :=
  match d.find identifier with
  | none => .error .badCredentials
  | some (playerId, account) =>
    match verify password account.passwordHash with
    | none => .error .hash
    | some false => .error .badCredentials
    | some true => d.issue playerId account key

/-- A key opens its player's account as long as it is the last one. -/
def authenticateSession (d : Directory) (key : String) :
    Except RegistryError (Grant × Directory) :=
  match d.issued.findIdx? fun entry => entry.2 = key with
  | none => .error .unknownSession
  | some i =>
    match d.issued[i]? >>= fun entry => (d.accounts[entry.1 - 1]?).map fun account =>
        (entry.1, account) with
    | none => .error .unknownSession
    | some (playerId, account) =>
      if d.isCurrent i then
        .ok (⟨record playerId account, key, i + 1⟩, d.goOnline playerId (i + 1))
      else .error .sessionRevoked

def logout (d : Directory) (playerId sessionId : ℕ) : Directory :=
  if d.online playerId = some sessionId then
    { d with online := Function.update d.online playerId none }
  else d

def updateStats (d : Directory) (playerId : ℕ) (stats : LifetimeStats) : Directory :=
  if (d.online playerId).isSome then
    { d with accounts := d.accounts.modify (playerId - 1) fun account =>
        { account with stats := stats } }
  else d

/-- A login that is refused changes nothing. -/
def settle (d : Directory) : Except RegistryError (Grant × Directory) → Answer × Directory
  | .error e => (some (.error e), d)
  | .ok (grant, d') => (some (.ok grant), d')

def answer (verify : String → String → Option Bool) (d : Directory) :
    AccountCall → Answer × Directory
  | .register email username password _ hash key now =>
    d.settle (d.register email username password hash key now)
  | .authenticatePassword identifier password _ key _ =>
    d.settle (d.authenticatePassword verify identifier password key)
  | .authenticateSession key => d.settle (d.authenticateSession key)
  | .logout playerId sessionId => (none, d.logout playerId sessionId)
  | .updateStats playerId stats => (none, d.updateStats playerId stats)
  | .restart => (none, { d with online := fun _ => none })

/-- The answers to calls, one after the other. -/
def answers (verify : String → String → Option Bool) : Directory → List AccountCall → List Answer
  | _, [] => []
  | d, call :: calls => (d.answer verify call).1 :: answers verify (d.answer verify call).2 calls

/-- The directory after calls. -/
def after (verify : String → String → Option Bool) : Directory → List AccountCall → Directory
  | d, [] => d
  | d, call :: calls => after verify (d.answer verify call).2 calls

end Directory

namespace Registry

/-- What the player gets; the flag stays with the connection. -/
def grant (success : AuthSuccess) : Grant := ⟨success.record, success.sessionKey, success.sessionId⟩

def settle (r : Registry) : Except RegistryError (AuthSuccess × Registry) → Answer × Registry
  | .error e => (some (.error e), r)
  | .ok (success, r') => (some (.ok (grant success)), r')

/-- The server opens the registry on the database that it left. -/
def answer (verify : String → String → Option Bool) (r : Registry) :
    AccountCall → Answer × Registry
  | .register email username password deviceLabel hash key now =>
    r.settle (r.register email username password deviceLabel hash key now)
  | .authenticatePassword identifier password deviceLabel key now =>
    r.settle (r.authenticatePassword verify identifier password deviceLabel key now)
  | .authenticateSession key => r.settle (r.authenticateSession key)
  | .logout playerId sessionId => (none, r.logout playerId sessionId)
  | .updateStats playerId stats => (none, r.updateStats playerId stats)
  | .restart => (none, opened r.db)

/-- The answers to calls, one after the other. -/
def answers (verify : String → String → Option Bool) : Registry → List AccountCall → List Answer
  | _, [] => []
  | r, call :: calls => (r.answer verify call).1 :: answers verify (r.answer verify call).2 calls

/-- The registry after calls. -/
def after (verify : String → String → Option Bool) : Registry → List AccountCall → Registry
  | r, [] => r
  | r, call :: calls => after verify (r.answer verify call).2 calls

end Registry

end VibePoker.Server
