import VibePoker.Server.Tables

/-!
# The registry is a directory

The tables of the registry, in which sessions are revoked and users are looked up by
id, answer each call as the directory of players does that they stand for, however the
calls follow on each other, and however often the server is started anew in between.
What a key opens is decided by the keys handed out so far.

## Main definitions

* `Registry.Represents` — the tables hold the directory, and the same players are online
* `handedOut`, `gather` — the keys that were handed out in a run, with their players

## Main results

* `registry_refines_directory`
* `registry_keys`
-/

namespace VibePoker.Server

open VibePoker.Net

/-! ## The registry -/

/-- The tables hold the directory, and the same players are online. -/
structure Registry.Represents (r : Registry) (d : Directory) : Prop where
  stores : r.db.Stores d
  online_eq : ∀ p, (r.online p).map OnlineEntry.sessionId = d.online p
  online_known : ∀ p sessionId, d.online p = some sessionId → 1 ≤ p ∧ p ≤ d.accounts.length

/-- Both refuse a login for the same reason, or both grant the same. -/
def Agrees : Except RegistryError (AuthSuccess × Registry) →
    Except RegistryError (Grant × Directory) → Prop
  | .error e, .error e' => e = e'
  | .ok (success, r), .ok (grant, d) => Registry.grant success = grant ∧ r.Represents d
  | _, _ => False

namespace Registry.Represents

variable {r : Registry} {d : Directory}

theorem settle (h : r.Represents d) {login : Except RegistryError (AuthSuccess × Registry)}
    {login' : Except RegistryError (Grant × Directory)} (hagrees : Agrees login login') :
    (r.settle login).1 = (d.settle login').1 ∧
      (r.settle login).2.Represents (d.settle login').2 := by
  cases login with
  | error e =>
    cases login' with
    | error e' =>
      obtain rfl : e = e' := hagrees
      exact ⟨rfl, h⟩
    | ok handed => exact hagrees.elim
  | ok handed =>
    cases login' with
    | error e' => exact hagrees.elim
    | ok handed' =>
      obtain ⟨hgrant, hafter⟩ : Registry.grant handed.1 = handed'.1 ∧ _ := hagrees
      exact ⟨congrArg (fun grant => some (Except.ok grant)) hgrant, hafter⟩

/-- To go online with a session of the tables. -/
theorem logIn {db : Database} {d' : Directory} (h : r.Represents d) (hdb : db.Stores d')
    (honline : d'.online = d.online) (hgrown : d.accounts.length ≤ d'.accounts.length)
    {p : ℕ} (hfirst : 1 ≤ p) (hlast : p ≤ d'.accounts.length) (account : Account) (key : String)
    (sessionId : ℕ) :
    Registry.grant (r.logIn db (Directory.record p account) key sessionId).1 =
        ⟨Directory.record p account, key, sessionId⟩ ∧
      (r.logIn db (Directory.record p account) key sessionId).2.Represents
        (d'.goOnline p sessionId) := by
  refine ⟨rfl, hdb.forget _, fun q => ?_, fun q s hq => ?_⟩
  · change (Function.update r.online p _ q).map _ = Function.update d'.online p _ q
    rw [honline]
    by_cases hq : q = p
    · subst hq
      simp
    · rw [Function.update_of_ne hq, Function.update_of_ne hq, h.online_eq]
  · change Function.update d'.online p _ q = _ at hq
    by_cases hqp : q = p
    · subst hqp
      exact ⟨hfirst, hlast⟩
    · rw [Function.update_of_ne hqp, honline] at hq
      obtain ⟨hq₁, hq₂⟩ := h.online_known q s hq
      exact ⟨hq₁, hq₂.trans hgrown⟩

/-- To hand out a key and go online. -/
theorem issue {db : Database} {d' : Directory} (h : r.Represents d) (hdb : db.Stores d')
    (honline : d'.online = d.online) (hgrown : d.accounts.length ≤ d'.accounts.length)
    {p : ℕ} (hfirst : 1 ≤ p) (hlast : p ≤ d'.accounts.length) (account : Account)
    (deviceLabel : Option String) (key : String) (now : ℕ) :
    Agrees (db.issueSession p deviceLabel key now >>= fun issued =>
        .ok (r.logIn issued.2 (Directory.record p account) key issued.1))
      (d'.issue p account key) := by
  rw [Directory.issue]
  cases htaken : d'.issued.any fun entry => entry.2 = key with
  | true =>
    rw [hdb.issueSession_taken htaken]
    exact rfl
  | false =>
    obtain ⟨hissued, hstores⟩ := hdb.issueSession htaken hfirst hlast deviceLabel now
    rw [hissued]
    exact h.logIn hstores honline hgrown hfirst hlast account key _

theorem register (h : r.Represents d) (email username password : String)
    (deviceLabel hash : Option String) (key : String) (now : ℕ) :
    Agrees (r.register email username password deviceLabel hash key now)
      (d.register email username password hash key now) := by
  have husername := h.stores.any_users (fun user => user.username = username)
    (fun account => account.username = username) fun _ _ => rfl
  have hemail := h.stores.any_users (fun user => user.email = email)
    (fun account => account.email = email) fun _ _ => rfl
  unfold Registry.register Directory.register
  rw [husername, hemail]
  cases isValidEmail email with
  | false => exact rfl
  | true =>
    cases isValidUsername username with
    | false => exact rfl
    | true =>
      cases isValidPassword password with
      | false => exact rfl
      | true =>
        cases hash with
        | none => exact rfl
        | some hash =>
          cases d.accounts.any fun account => account.username = username with
          | true => exact rfl
          | false =>
            cases d.accounts.any fun account => account.email = email with
            | true => exact rfl
            | false =>
              obtain ⟨hid, hstores⟩ := h.stores.insertUser email username hash now
              have hissue := h.issue hstores rfl (by simp)
                (Nat.le_add_left 1 d.accounts.length) (by simp)
                ⟨email, username, hash, now, default⟩ deviceLabel key now
              change Agrees ((r.db.insertUser email username hash now).2.issueSession
                (r.db.insertUser email username hash now).1 deviceLabel key now >>= fun issued =>
                  .ok (r.logIn issued.2
                    ⟨(r.db.insertUser email username hash now).1, username, now, default⟩ key
                    issued.1)) _
              rw [hid]
              exact hissue

/-- A user is found by the address or the name. -/
theorem findUser (h : r.Represents d) (identifier : String) :
    r.db.findUser identifier = (d.find identifier).map fun found => found.2.row found.1 := by
  have hfind : ∀ (seen : UserRow → Bool) (p : Account → Bool),
      (∀ i account, seen (account.row i) = p account) → r.db.users.find? seen =
        ((d.accounts.findIdx? p).bind fun i => (d.accounts[i]?).bind fun account =>
          some (i + 1, account)).map fun found => found.2.row found.1 := by
    intro seen p hseen
    rw [h.stores.find?_users seen p hseen, Option.map_bind]
    refine congrArg _ (funext fun i => ?_)
    rw [Function.comp_apply]
    cases d.accounts[i]? <;> rfl
  rw [Database.findUser, Directory.find]
  by_cases haddress : identifier.toList.contains '@'
  · simp only [haddress, if_true]
    exact hfind _ _ fun _ _ => rfl
  · simp only [haddress]
    exact hfind _ _ fun _ _ => rfl

/-- A player who is found has an account. -/
theorem find_le {identifier : String} {p : ℕ} {account : Account}
    (hfind : d.find identifier = some (p, account)) : 1 ≤ p ∧ p ≤ d.accounts.length := by
  simp only [Directory.find, Option.bind_eq_bind, Option.bind_eq_some_iff, Option.some.injEq,
    Prod.mk.injEq] at hfind
  obtain ⟨i, -, account', haccount, rfl, -⟩ := hfind
  exact ⟨Nat.le_add_left 1 i, (List.getElem?_eq_some_iff.mp haccount).1⟩

theorem authenticatePassword (verify : String → String → Option Bool) (h : r.Represents d)
    (identifier password : String) (deviceLabel : Option String) (key : String) (now : ℕ) :
    Agrees (r.authenticatePassword verify identifier password deviceLabel key now)
      (d.authenticatePassword verify identifier password key) := by
  unfold Registry.authenticatePassword Directory.authenticatePassword
  rw [h.findUser]
  cases hfind : d.find identifier with
  | none => exact rfl
  | some found =>
    obtain ⟨p, account⟩ := found
    obtain ⟨hfirst, hlast⟩ := find_le hfind
    dsimp only [Option.map_some, Account.row]
    cases verify password account.passwordHash with
    | none => exact rfl
    | some matching =>
      cases matching with
      | false => exact rfl
      | true => exact h.issue h.stores rfl le_rfl hfirst hlast account deviceLabel key now

/-- The place of a key among the sessions is its place among the keys. -/
theorem findIdx?_sessions (h : r.Represents d) (key : String) :
    (r.db.sessions.findIdx? fun row => row.key = key) =
      d.issued.findIdx? fun entry => entry.2 = key := by
  rw [← h.stores.sessions_eq, List.findIdx?_map]
  rfl

/-- A session is found by its key, with the account of its player. -/
theorem findSession (h : r.Represents d) {key : String} {i : ℕ}
    (hi : (d.issued.findIdx? fun entry => entry.2 = key) = some i) :
    ∃ row account, r.db.sessions[i]? = some row ∧ d.accounts[row.userId - 1]? = some account ∧
      r.db.findSession key = some (row, account.row row.userId) := by
  obtain ⟨hlt, -⟩ := List.findIdx?_eq_some_iff_getElem.mp hi
  rw [← h.stores.length_sessions] at hlt
  obtain ⟨row, hrow⟩ : ∃ row, r.db.sessions[i]? = some row := ⟨_, List.getElem?_eq_getElem hlt⟩
  obtain ⟨hfirst, hlast⟩ := h.stores.known _ (List.mem_of_getElem? (h.stores.getElem?_issued hrow))
  obtain ⟨account, haccount⟩ : ∃ account, d.accounts[row.userId - 1]? = some account :=
    ⟨_, List.getElem?_eq_getElem (by omega)⟩
  refine ⟨row, account, hrow, haccount, ?_⟩
  have hfound : (r.db.sessions.find? fun row => row.key = key) = some row := by
    rw [List.find?_eq_bind_findIdx?_getElem?, h.findIdx?_sessions, hi, Option.bind_some, hrow]
  have huser := h.stores.find?_id hfirst
  rw [haccount, Option.map_some] at huser
  simp [Database.findSession, hfound, huser]

theorem authenticateSession (h : r.Represents d) (key : String) :
    Agrees (r.authenticateSession key) (d.authenticateSession key) := by
  unfold Registry.authenticateSession Directory.authenticateSession
  cases hi : d.issued.findIdx? fun entry => entry.2 = key with
  | none =>
    have hnone : r.db.findSession key = none := by
      rw [Database.findSession, List.find?_eq_bind_findIdx?_getElem?, h.findIdx?_sessions, hi]
      rfl
    rw [hnone]
    exact rfl
  | some i =>
    obtain ⟨row, account, hrow, haccount, hfound⟩ := h.findSession hi
    have hentry := h.stores.getElem?_issued hrow
    obtain ⟨hfirst, hlast⟩ := h.stores.known _ (List.mem_of_getElem? hentry)
    have hlive := h.stores.live_eq i row hrow
    simp only [hfound, hentry, haccount, Option.bind_eq_bind, Option.bind_some, Option.map_some,
      ← hlive]
    cases hrevoked : row.revokedAt with
    | some time => exact rfl
    | none =>
      rw [← h.stores.id_eq i row hrow]
      exact h.logIn h.stores rfl le_rfl hfirst hlast account key row.id

theorem logout (h : r.Represents d) (p sessionId : ℕ) :
    (r.logout p sessionId).Represents (d.logout p sessionId) := by
  have honline := h.online_eq p
  rw [Registry.logout, Directory.logout]
  cases hentry : r.online p with
  | none =>
    rw [hentry, Option.map_none] at honline
    simpa [← honline] using h
  | some entry =>
    rw [hentry, Option.map_some] at honline
    simp only [← honline, Option.some.injEq]
    split
    · refine ⟨h.stores.forget _, fun q => ?_, fun q s hq => ?_⟩
      · by_cases hqp : q = p
        · subst hqp
          simp
        · simpa [Function.update_of_ne hqp] using h.online_eq q
      · by_cases hqp : q = p
        · subst hqp
          simp at hq
        · exact h.online_known q s (by simpa [Function.update_of_ne hqp] using hq)
    · exact h

theorem updateStats (h : r.Represents d) (p : ℕ) (stats : LifetimeStats) :
    (r.updateStats p stats).Represents (d.updateStats p stats) := by
  have honline : (r.online p).isNone = !(d.online p).isSome := by
    rw [← h.online_eq p]
    cases r.online p <;> rfl
  rw [Registry.updateStats, Directory.updateStats, honline]
  cases hsession : d.online p with
  | none => exact h
  | some sessionId =>
    simp only [Option.isSome_some, Bool.not_true, Bool.false_eq_true, if_false, if_true]
    have hfirst := (h.online_known p sessionId hsession).1
    refine ⟨⟨?_, ?_, h.stores.sessions_eq, h.stores.id_eq, h.stores.live_eq,
      h.stores.nextSessionId_eq, ?_⟩, h.online_eq, ?_⟩
    · rw [h.stores.users_eq]
      refine List.ext_getElem? fun i => ?_
      have hplace : p - 1 = i ↔ i + 1 = p := by omega
      simp only [List.getElem?_map, List.getElem?_mapIdx, List.getElem?_modify]
      cases d.accounts[i]? with
      | none => rfl
      | some account =>
        by_cases hp : i + 1 = p <;> simp [Account.row, hplace, hp]
    · exact h.stores.nextUserId_eq.trans (by simp)
    · simpa using h.stores.known
    · simpa using h.online_known

theorem restart (h : r.Represents d) :
    (Registry.opened r.db).Represents { d with online := fun _ => none } :=
  ⟨h.stores.forget _, fun _ => rfl, fun _ _ hnone => absurd hnone (by simp)⟩

end Registry.Represents

/-! ## Runs -/

variable {r : Registry} {d : Directory}

/-- Each call is answered alike. -/
theorem Registry.Represents.answer (verify : String → String → Option Bool) (h : r.Represents d)
    (call : AccountCall) : (r.answer verify call).1 = (d.answer verify call).1 ∧
      (r.answer verify call).2.Represents (d.answer verify call).2 := by
  cases call with
  | register email username password deviceLabel hash key now =>
    exact h.settle (h.register email username password deviceLabel hash key now)
  | authenticatePassword identifier password deviceLabel key now =>
    exact h.settle (h.authenticatePassword verify identifier password deviceLabel key now)
  | authenticateSession key => exact h.settle (h.authenticateSession key)
  | logout p sessionId => exact ⟨rfl, h.logout p sessionId⟩
  | updateStats p stats => exact ⟨rfl, h.updateStats p stats⟩
  | restart => exact ⟨rfl, h.restart⟩

theorem represents_empty : (Registry.opened .migrated).Represents .empty where
  stores := ⟨rfl, rfl, rfl, by simp [Registry.opened, Database.migrated],
    by simp [Registry.opened, Database.migrated], rfl, by simp [Directory.empty]⟩
  online_eq := fun _ => rfl
  online_known := by simp [Directory.empty]

/-- All calls are answered alike. -/
theorem Registry.Represents.run (verify : String → String → Option Bool)
    (calls : List AccountCall) (h : r.Represents d) :
    r.answers verify calls = d.answers verify calls ∧
      (r.after verify calls).Represents (d.after verify calls) := by
  induction calls generalizing r d with
  | nil => exact ⟨rfl, h⟩
  | cons call calls ih =>
    obtain ⟨hanswer, hnext⟩ := h.answer verify call
    obtain ⟨hanswers, hafter⟩ := ih hnext
    rw [Registry.answers, Directory.answers, hanswer, hanswers]
    exact ⟨rfl, hafter⟩

/-- From a new database on, every run of calls and restarts of the server is answered as
by the directory, which has neither rows that are revoked nor flags: a key opens the
account of its player until the player's next one is handed out. -/
theorem registry_refines_directory (verify : String → String → Option Bool)
    (calls : List AccountCall) :
    (Registry.opened .migrated).answers verify calls = Directory.empty.answers verify calls :=
  (represents_empty.run verify calls).1

/-! ## The keys handed out -/

/-- The player and the key of a login that was granted. -/
def grantedKey : Answer → Option (ℕ × String)
  | some (.ok grant) => some (grant.record.playerId, grant.sessionKey)
  | _ => none

/-- The same for the logins that hand out a new key. -/
def handedOut : AccountCall → Answer → Option (ℕ × String)
  | .register .., answer | .authenticatePassword .., answer => grantedKey answer
  | _, _ => none

/-- What the calls of a run and their answers yield, one after the other. -/
def gather {α : Type*} (yield : AccountCall → Answer → Option α) (calls : List AccountCall)
    (answers : List Answer) : List α :=
  (calls.zip answers).filterMap fun x => yield x.1 x.2

theorem gather_cons {α : Type*} (yield : AccountCall → Answer → Option α) (call : AccountCall)
    (calls : List AccountCall) (answer : Answer) (answers : List Answer) :
    gather yield (call :: calls) (answer :: answers) =
      (yield call answer).toList ++ gather yield calls answers := by
  simp only [gather, List.zip_cons_cons, List.filterMap_cons]
  cases yield call answer <;> rfl

namespace Directory

variable {d₀ d : Directory} {verify : String → String → Option Bool}

/-- What handing out a key does to the keys: it is new, and it is the last one. -/
def Appends (d : Directory) (login : Except RegistryError (Grant × Directory)) : Prop :=
  ∀ grant d', login = .ok (grant, d') →
    d'.issued = d.issued ++ [(grant.record.playerId, grant.sessionKey)] ∧
      ∀ entry ∈ d.issued, entry.2 ≠ grant.sessionKey

theorem appends_issue (hissued : d₀.issued = d.issued) (p : ℕ) (account : Account)
    (key : String) : d.Appends (d₀.issue p account key) := by
  intro grant d' hissue
  rw [issue, hissued] at hissue
  split at hissue
  · cases hissue
  · rename_i hnew
    cases hissue
    exact ⟨rfl, fun entry hentry heq =>
      hnew (List.any_eq_true.mpr ⟨entry, hentry, by simpa using heq⟩)⟩

theorem appends_register (d : Directory) (email username password : String)
    (hash : Option String) (key : String) (now : ℕ) :
    d.Appends (d.register email username password hash key now) := by
  intro grant d' hregister
  unfold register at hregister
  repeat' split at hregister
  case h_2.isFalse.isFalse => exact appends_issue (by rfl) _ _ _ grant d' hregister
  all_goals cases hregister

theorem appends_authenticatePassword (d : Directory) (identifier password key : String) :
    d.Appends (d.authenticatePassword verify identifier password key) := by
  intro grant d' hlogin
  unfold authenticatePassword at hlogin
  repeat' split at hlogin
  case h_3 => exact appends_issue rfl _ _ _ grant d' hlogin
  all_goals cases hlogin

theorem Appends.settle {login : Except RegistryError (Grant × Directory)} (h : d.Appends login) :
    (d.settle login).2.issued = d.issued ++ (grantedKey (d.settle login).1).toList ∧
      ∀ fresh ∈ grantedKey (d.settle login).1, ∀ entry ∈ d.issued, entry.2 ≠ fresh.2 := by
  cases login with
  | error e => exact ⟨(List.append_nil _).symm, by simp [Directory.settle, grantedKey]⟩
  | ok handed =>
    obtain ⟨hissued, hnew⟩ := h handed.1 handed.2 rfl
    refine ⟨hissued, fun fresh hfresh => ?_⟩
    obtain rfl := Option.some.inj hfresh
    exact hnew

theorem issued_authenticateSession (d : Directory) (key : String) :
    (d.settle (d.authenticateSession key)).2.issued = d.issued := by
  unfold authenticateSession
  repeat' split
  all_goals rfl

/-- Only the logins with a password add to the keys. -/
theorem issued_answer (verify : String → String → Option Bool) (d : Directory)
    (call : AccountCall) :
    (d.answer verify call).2.issued =
        d.issued ++ (handedOut call (d.answer verify call).1).toList ∧
      ∀ fresh ∈ handedOut call (d.answer verify call).1, ∀ entry ∈ d.issued,
        entry.2 ≠ fresh.2 := by
  cases call with
  | register email username password deviceLabel hash key now =>
    exact (appends_register d email username password hash key now).settle
  | authenticatePassword identifier password deviceLabel key now =>
    exact (appends_authenticatePassword d identifier password key).settle
  | authenticateSession key =>
    exact ⟨(issued_authenticateSession d key).trans (List.append_nil _).symm, by simp [handedOut]⟩
  | logout p sessionId =>
    refine ⟨Eq.trans ?_ (List.append_nil _).symm, by simp [handedOut]⟩
    rw [answer, logout]
    split <;> rfl
  | updateStats p stats =>
    refine ⟨Eq.trans ?_ (List.append_nil _).symm, by simp [handedOut]⟩
    rw [answer, updateStats]
    split <;> rfl
  | restart => exact ⟨(List.append_nil _).symm, by simp [handedOut]⟩

/-- A list that grows by what each call yields holds what a run has yielded. -/
theorem after_eq_gather {α : Type*} {yield : AccountCall → Answer → Option α}
    {held : Directory → List α} (hstep : ∀ d call, held (d.answer verify call).2 =
      held d ++ (yield call (d.answer verify call).1).toList) (d : Directory)
    (calls : List AccountCall) :
    held (d.after verify calls) = held d ++ gather yield calls (d.answers verify calls) := by
  induction calls generalizing d with
  | nil => exact (List.append_nil _).symm
  | cons call calls ih => rw [after, ih, hstep, List.append_assoc, answers, gather_cons]

/-- What each call keeps, a run keeps. -/
theorem after_keeps (Inv : Directory → Prop)
    (hkeep : ∀ d call, Inv d → Inv (d.answer verify call).2) {d : Directory} (hinit : Inv d)
    (calls : List AccountCall) : Inv (d.after verify calls) := by
  induction calls generalizing d with
  | nil => exact hinit
  | cons call calls ih => exact ih (hkeep d call hinit)

/-- No key is handed out twice. -/
theorem nodup_answer (verify : String → String → Option Bool) (d : Directory)
    (call : AccountCall) (hnodup : (d.issued.map Prod.snd).Nodup) :
    ((d.answer verify call).2.issued.map Prod.snd).Nodup := by
  obtain ⟨hissued, hnew⟩ := issued_answer verify d call
  rw [hissued]
  cases hfresh : handedOut call (d.answer verify call).1 with
  | none => simpa using hnodup
  | some fresh =>
    rw [Option.toList_some, List.map_append, List.map_singleton]
    refine List.nodup_append.mpr ⟨hnodup, List.nodup_singleton _, ?_⟩
    intro key hkey key' hkey'
    obtain ⟨entry, hentry, rfl⟩ := List.mem_map.mp hkey
    obtain rfl := List.mem_singleton.mp hkey'
    exact hnew fresh hfresh entry hentry

/-- The outcome of a login with a key, from where it stands among the keys. -/
theorem authenticateSession_eq (d : Directory) (hnodup : (d.issued.map Prod.snd).Nodup)
    {earlier later : List (ℕ × String)} {p : ℕ} {key : String} {account : Account}
    (hissued : d.issued = earlier ++ (p, key) :: later)
    (haccount : d.accounts[p - 1]? = some account) :
    d.authenticateSession key = if later.any fun entry => entry.1 = p then .error .sessionRevoked
      else .ok (⟨record p account, key, earlier.length + 1⟩,
        d.goOnline p (earlier.length + 1)) := by
  have hentry : d.issued[earlier.length]? = some (p, key) := by
    rw [hissued]
    simp
  have hplace : (d.issued.findIdx? fun entry => entry.2 = key) = some earlier.length := by
    rw [hissued, List.map_append] at hnodup
    rw [hissued, List.findIdx?_append, List.findIdx?_cons]
    have hearlier : (earlier.findIdx? fun entry => entry.2 = key) = none := by
      refine List.findIdx?_eq_none_iff.mpr fun entry hentry => decide_eq_false ?_
      exact (List.nodup_append.mp hnodup).2.2 _ (List.mem_map_of_mem hentry) key (by simp)
    simp [hearlier]
  have hcurrent : d.isCurrent earlier.length = !later.any fun entry => entry.1 = p := by
    rw [isCurrent, hentry, hissued]
    simp
  simp only [authenticateSession, hplace, hentry, haccount, hcurrent, Option.bind_eq_bind,
    Option.bind_some, Option.map_some]
  cases later.any fun entry => entry.1 = p <;> rfl

end Directory

/-- After every run of calls and restarts, the keys that were handed out to players who
logged in with a password differ; a key that was not handed out is unknown, and one that
was handed out opens its player's account, under the number of the session, exactly if no
further key was handed out to the player; otherwise it is revoked. -/
theorem registry_keys (verify : String → String → Option Bool) (calls : List AccountCall)
    (key : String) :
    ((gather handedOut calls ((Registry.opened .migrated).answers verify calls)).map
        Prod.snd).Nodup ∧
      ((∀ entry ∈ gather handedOut calls ((Registry.opened .migrated).answers verify calls),
          entry.2 ≠ key) →
        (((Registry.opened .migrated).after verify calls).answer verify
          (.authenticateSession key)).1 = some (.error .unknownSession)) ∧
      ∀ earlier p later,
        gather handedOut calls ((Registry.opened .migrated).answers verify calls) =
            earlier ++ (p, key) :: later →
          ((∃ next, (p, next) ∈ later) →
            (((Registry.opened .migrated).after verify calls).answer verify
              (.authenticateSession key)).1 = some (.error .sessionRevoked)) ∧
          ((∀ next, (p, next) ∉ later) → ∃ record,
            (((Registry.opened .migrated).after verify calls).answer verify
              (.authenticateSession key)).1 = some (.ok ⟨record, key, earlier.length + 1⟩) ∧
              record.playerId = p) := by
  obtain ⟨hanswers, hafter⟩ := represents_empty.run verify calls
  have hnodup := Directory.after_keeps (fun d => (d.issued.map Prod.snd).Nodup)
    (Directory.nodup_answer verify) (d := .empty) List.nodup_nil calls
  have hissued := Directory.after_eq_gather
    (fun d call => (Directory.issued_answer verify d call).1) .empty calls
  rw [← hanswers] at hissued
  change _ = gather _ _ _ at hissued
  rw [← hissued, (hafter.answer verify (.authenticateSession key)).1]
  refine ⟨hnodup, fun hunknown => ?_, fun earlier p later hkeys => ?_⟩
  · have hnone : ((Directory.empty.after verify calls).issued.findIdx? fun entry =>
        entry.2 = key) = none :=
      List.findIdx?_eq_none_iff.mpr fun entry hentry => decide_eq_false (hunknown entry hentry)
    simp only [Directory.answer, Directory.authenticateSession, hnone, Directory.settle]
  · obtain ⟨hfirst, hlast⟩ := hafter.stores.known (p, key) (by simp [hkeys])
    have hplace : p - 1 < (Directory.empty.after verify calls).accounts.length := by omega
    have haccount := List.getElem?_eq_getElem hplace
    rw [Directory.answer, Directory.authenticateSession_eq _ hnodup hkeys haccount]
    refine ⟨fun ⟨next, hnext⟩ => ?_, fun hlatest => ?_⟩
    · rw [if_pos (List.any_eq_true.mpr ⟨_, hnext, by simp⟩)]
      rfl
    · rw [if_neg]
      · exact ⟨_, rfl, rfl⟩
      · rintro hany
        obtain ⟨⟨q, next⟩, hnext, hq⟩ := List.any_eq_true.mp hany
        obtain rfl : q = p := of_decide_eq_true hq
        exact hlatest next hnext

end VibePoker.Server
