import VibePoker.Theorems.Directory

/-!
# The players of the registry

A name and an address belong to the player who registered with them, for good: the
players are numbered in the order in which they registered, no two of them share a name
or an address, and a login by either reaches the player and nobody else. Names have no
`@` and addresses do, which keeps the two apart.

## Main definitions

* `registered` — the player that a call has registered

## Main results

* `registry_players`
-/

namespace VibePoker.Net

/-! ## Names and addresses -/

theorem toList_loop (bytes : ByteArray) (i : ℕ) (read : List UInt8) :
    ByteArray.toList.loop bytes i read = read.reverse ++ bytes.data.toList.drop i := by
  fun_induction ByteArray.toList.loop bytes i read with
  | case1 i read hi ih =>
    have hi' : i < bytes.data.toList.length := by
      rw [Array.length_toList]
      exact hi
    have hget : bytes.get! i = bytes.data.toList[i] := by
      rw [Array.getElem_toList]
      exact getElem!_pos bytes.data i hi
    rw [ih, List.drop_eq_getElem_cons hi', List.reverse_cons, List.append_assoc, hget]
    rfl
  | case2 i read hi =>
    have hi' : bytes.data.toList.length ≤ i := by
      rw [Array.length_toList]
      exact not_lt.mp hi
    rw [List.drop_eq_nil_of_le hi', List.append_nil]

/-- The bytes of a text are those of its characters. -/
theorem mem_toUTF8 {name : String} {c : Char} (hc : c ∈ name.toList) {b : UInt8}
    (hb : b ∈ String.utf8EncodeChar c) : b ∈ name.toUTF8.toList := by
  have hdata : name.toUTF8.data.toList = name.toList.flatMap String.utf8EncodeChar := by
    have hencode := congrArg (fun bytes : ByteArray => bytes.data.toList)
      (String.utf8Encode_toList (b := name))
    simp only [List.utf8Encode, List.toList_data_toByteArray] at hencode
    exact hencode.symm
  rw [ByteArray.toList, toList_loop, hdata]
  simpa using ⟨c, hc, hb⟩

theorem not_mem_of_isValidUsername {name : String} (h : isValidUsername name) :
    '@' ∉ name.toList := by
  intro hat
  have hbyte : (64 : UInt8) ∈ name.toUTF8.toList := mem_toUTF8 hat (by decide)
  unfold isValidUsername at h
  split at h
  · cases h
  · rename_i first rest hbytes
    rw [hbytes] at hbyte
    simp only [Bool.and_eq_true, List.all_eq_true] at h
    exact absurd (h.2 64 hbyte) (by decide)

theorem mem_of_isValidEmail {email : String} (h : isValidEmail email) : '@' ∈ email.toList := by
  by_contra hat
  have hsplit : email.toList.splitOn '@' = [email.toList] :=
    List.splitOnP_eq_singleton fun c hc => beq_eq_false_iff_ne.mpr fun heq => hat (heq ▸ hc)
  rw [isValidEmail, hsplit] at h
  simp at h

end VibePoker.Net

namespace VibePoker.Server

open VibePoker.Net

/-! ## Registrations -/

/-- A player, as registered. -/
structure Registration where
  playerId : ℕ
  email : String
  username : String
  passwordHash : String
deriving DecidableEq, Repr

/-- The player that a call has registered. -/
def registered : AccountCall → Answer → Option Registration
  | .register email username _ _ (some hash) _ _, some (.ok grant) =>
    some ⟨grant.record.playerId, email, username, hash⟩
  | _, _ => none

namespace Directory

variable {verify : String → String → Option Bool} {d : Directory}

/-- The players of a directory, as they registered. -/
def registrations (d : Directory) : List Registration :=
  d.accounts.mapIdx fun i account => ⟨i + 1, account.email, account.username, account.passwordHash⟩

/-- Names and addresses are of the right form, and nobody else's. -/
structure Sound (d : Directory) : Prop where
  addresses : (d.registrations.map Registration.email).Nodup
  names : (d.registrations.map Registration.username).Nodup
  address_mem : ∀ player ∈ d.registrations, '@' ∈ player.email.toList
  name_not_mem : ∀ player ∈ d.registrations, '@' ∉ player.username.toList

theorem issue_accounts {d d' : Directory} {p : ℕ} {account : Account} {key : String} {grant : Grant}
    (h : d.issue p account key = .ok (grant, d')) :
    d'.accounts = d.accounts ∧ grant.record.playerId = p := by
  rw [issue] at h
  split at h
  · cases h
  · cases h
    exact ⟨rfl, rfl⟩

/-- What a registration that succeeds has checked, and the account that it leaves. -/
structure Registers (d : Directory) (email username hash : String) (grant : Grant)
    (d' : Directory) : Prop where
  accounts_eq : ∃ now, d'.accounts = d.accounts ++ [⟨email, username, hash, now, default⟩]
  playerId_eq : grant.record.playerId = d.accounts.length + 1
  valid_email : isValidEmail email = true
  valid_name : isValidUsername username = true
  name_new : ∀ account ∈ d.accounts, account.username ≠ username
  address_new : ∀ account ∈ d.accounts, account.email ≠ email

theorem registers_of_register {email username password key : String} {hash : Option String}
    {now : ℕ} {grant : Grant} {d' : Directory}
    (h : d.register email username password hash key now = .ok (grant, d')) :
    ∃ text, hash = some text ∧ d.Registers email username text grant d' := by
  unfold register at h
  split at h
  · cases h
  · rename_i hemail
    split at h
    · cases h
    · rename_i hname
      split at h
      · cases h
      · split at h
        · cases h
        · rename_i text
          split at h
          · cases h
          · rename_i hunused
            split at h
            · cases h
            · rename_i hnew
              obtain ⟨haccounts, hid⟩ := issue_accounts h
              refine ⟨text, rfl, ⟨now, haccounts⟩, hid, by simpa using hemail,
                by simpa using hname, fun account haccount heq => hunused ?_,
                fun account haccount heq => hnew ?_⟩
              · exact List.any_eq_true.mpr ⟨account, haccount, by simpa using heq⟩
              · exact List.any_eq_true.mpr ⟨account, haccount, by simpa using heq⟩

/-- The other calls change no name and no address. -/
theorem registrations_modify (d : Directory) (i : ℕ) (stats : LifetimeStats) :
    registrations { d with accounts := d.accounts.modify i fun account =>
      { account with stats := stats } } = d.registrations := by
  refine List.ext_getElem? fun j => ?_
  simp only [registrations, List.getElem?_mapIdx, List.getElem?_modify]
  cases d.accounts[j]? with
  | none => rfl
  | some account => by_cases hij : i = j <;> simp [hij]

theorem registrations_congr {d' : Directory} (h : d'.accounts = d.accounts) :
    d'.registrations = d.registrations := by
  rw [registrations, registrations, h]

theorem accounts_authenticateSession (d : Directory) (key : String) :
    (d.settle (d.authenticateSession key)).2.accounts = d.accounts := by
  unfold authenticateSession
  repeat' split
  all_goals rfl

theorem accounts_authenticatePassword (d : Directory) (identifier password key : String) :
    (d.settle (d.authenticatePassword verify identifier password key)).2.accounts =
      d.accounts := by
  cases hlogin : d.authenticatePassword verify identifier password key with
  | error e => rfl
  | ok handed =>
    unfold authenticatePassword at hlogin
    repeat' split at hlogin
    case h_3 => exact (issue_accounts hlogin).1
    all_goals cases hlogin

/-- Only a registration adds a player. -/
theorem registrations_answer (verify : String → String → Option Bool) (d : Directory)
    (call : AccountCall) : (d.answer verify call).2.registrations =
      d.registrations ++ (registered call (d.answer verify call).1).toList := by
  have hsame : ∀ {d' : Directory}, d'.registrations = d.registrations →
      d'.registrations = d.registrations ++ [] := by
    intro d' h
    rw [h, List.append_nil]
  cases call with
  | register email username password deviceLabel hash key now =>
    rw [answer]
    cases hregister : d.register email username password hash key now with
    | error e => cases hash <;> exact hsame rfl
    | ok handed =>
      obtain ⟨text, rfl, hregisters⟩ := registers_of_register hregister
      obtain ⟨time, haccounts⟩ := hregisters.accounts_eq
      change handed.2.registrations = d.registrations ++ [⟨handed.1.record.playerId, _, _, _⟩]
      rw [registrations, haccounts, List.mapIdx_concat, hregisters.playerId_eq]
      rfl
  | authenticatePassword identifier password deviceLabel key now =>
    exact hsame (registrations_congr (accounts_authenticatePassword d identifier password key))
  | authenticateSession key =>
    exact hsame (registrations_congr (accounts_authenticateSession d key))
  | logout p sessionId =>
    refine hsame (registrations_congr ?_)
    rw [answer, logout]
    split <;> rfl
  | updateStats p stats =>
    refine hsame ?_
    rw [answer, updateStats]
    split
    · exact registrations_modify d _ stats
    · rfl
  | restart => exact hsame rfl

theorem mem_registrations {player : Registration} : player ∈ d.registrations ↔
    ∃ i account, d.accounts[i]? = some account ∧
      player = ⟨i + 1, account.email, account.username, account.passwordHash⟩ := by
  rw [List.mem_iff_getElem?]
  simp only [registrations, List.getElem?_mapIdx, Option.map_eq_some_iff]
  constructor
  · rintro ⟨i, account, haccount, rfl⟩
    exact ⟨i, account, haccount, rfl⟩
  · rintro ⟨i, account, haccount, rfl⟩
    exact ⟨i, account, haccount, rfl⟩

/-- A player who registers has the next number, and a name and an address that are new. -/
theorem registered_new {call : AccountCall} {new : Registration}
    (h : registered call (d.answer verify call).1 = some new) :
    '@' ∈ new.email.toList ∧ '@' ∉ new.username.toList ∧
      ∀ old ∈ d.registrations, old.email ≠ new.email ∧ old.username ≠ new.username := by
  cases call with
  | register email username password deviceLabel hash key now =>
    rw [answer] at h
    cases hregister : d.register email username password hash key now with
    | error e =>
      rw [hregister] at h
      cases hash <;> cases h
    | ok handed =>
      obtain ⟨text, rfl, hregisters⟩ := registers_of_register hregister
      rw [hregister] at h
      obtain rfl := Option.some.inj h
      refine ⟨mem_of_isValidEmail hregisters.valid_email,
        not_mem_of_isValidUsername hregisters.valid_name, fun old hold => ?_⟩
      obtain ⟨i, account, haccount, rfl⟩ := mem_registrations.mp hold
      exact ⟨hregisters.address_new _ (List.mem_of_getElem? haccount),
        hregisters.name_new _ (List.mem_of_getElem? haccount)⟩
  | authenticatePassword | authenticateSession | logout | updateStats | restart => cases h

theorem sound_answer (verify : String → String → Option Bool) (d : Directory)
    (call : AccountCall) (h : d.Sound) : (d.answer verify call).2.Sound := by
  have hplayers := registrations_answer verify d call
  cases hcall : registered call (d.answer verify call).1 with
  | none =>
    rw [hcall, Option.toList_none, List.append_nil] at hplayers
    obtain ⟨haddresses, hnames, haddress, hname⟩ := h
    rw [← hplayers] at haddresses hnames haddress hname
    exact ⟨haddresses, hnames, haddress, hname⟩
  | some new =>
    obtain ⟨haddress, hname, hnew⟩ := registered_new hcall
    rw [hcall, Option.toList_some] at hplayers
    have hfresh : ∀ f : Registration → String, (d.registrations.map f).Nodup →
        (∀ old ∈ d.registrations, f old ≠ f new) →
          ((d.registrations ++ [new]).map f).Nodup := by
      intro f hnodup hdiffers
      rw [List.map_append, List.map_singleton]
      refine List.nodup_append.mpr ⟨hnodup, List.nodup_singleton _, ?_⟩
      intro text htext text' htext'
      obtain ⟨old, hold, rfl⟩ := List.mem_map.mp htext
      obtain rfl := List.mem_singleton.mp htext'
      exact hdiffers old hold
    constructor <;> rw [hplayers]
    · exact hfresh _ h.addresses fun old hold => (hnew old hold).1
    · exact hfresh _ h.names fun old hold => (hnew old hold).2
    · exact List.forall_mem_append.mpr ⟨h.address_mem, by simpa using haddress⟩
    · exact List.forall_mem_append.mpr ⟨h.name_not_mem, by simpa using hname⟩

/-- Of a list without repetitions, the place of a value is the first one with that value. -/
theorem findIdx?_of_nodup {α : Type*} {f : α → String} {l : List α} (h : (l.map f).Nodup) {i : ℕ}
    {x : α} (hx : l[i]? = some x) : (l.findIdx? fun y => f y = f x) = some i := by
  obtain ⟨hi, hget⟩ := List.getElem?_eq_some_iff.mp hx
  rw [List.findIdx?_eq_some_iff_getElem]
  refine ⟨hi, by simp [hget], fun j hj => ?_⟩
  have hlt : j < l.length := hj.trans hi
  have hne := List.pairwise_iff_getElem.mp h j i (by simpa using hlt) (by simpa using hi) hj
  simpa [hget] using hne

/-- A player is found by the address and by the name. -/
theorem find_of_mem (h : d.Sound) {player : Registration} (hplayer : player ∈ d.registrations)
    {identifier : String} (hid : identifier = player.email ∨ identifier = player.username) :
    ∃ account, d.find identifier = some (player.playerId, account) ∧
      account.username = player.username ∧ account.passwordHash = player.passwordHash := by
  have hmap : ∀ (f : Registration → String) (g : Account → String),
      (∀ i account, f ⟨i, account.email, account.username, account.passwordHash⟩ = g account) →
        d.registrations.map f = d.accounts.map g := by
    intro f g hfg
    rw [registrations, List.mapIdx_eq_zipIdx_map, List.map_map]
    calc d.accounts.zipIdx.map _ = d.accounts.zipIdx.map (g ∘ Prod.fst) :=
          List.map_congr_left fun x _ => hfg _ _
      _ = d.accounts.map g := by rw [← List.map_map, List.zipIdx_map_fst]
  have haddress := h.address_mem player hplayer
  have hname := h.name_not_mem player hplayer
  have haddresses := h.addresses
  have hnames := h.names
  rw [hmap _ Account.email fun _ _ => rfl] at haddresses
  rw [hmap _ Account.username fun _ _ => rfl] at hnames
  obtain ⟨i, account, haccount, rfl⟩ := mem_registrations.mp hplayer
  refine ⟨account, ?_, rfl, rfl⟩
  rcases hid with rfl | rfl
  · have hcontains : account.email.toList.contains '@' = true := by simpa using haddress
    simp only [find, hcontains, if_true, findIdx?_of_nodup haddresses haccount, haccount,
      Option.bind_eq_bind, Option.bind_some]
  · have hcontains : account.username.toList.contains '@' = false := by simpa using hname
    simp only [find, hcontains, Bool.false_eq_true, if_false,
      findIdx?_of_nodup hnames haccount, haccount, Option.bind_eq_bind, Option.bind_some]

theorem find_eq_none {identifier : String} (h : ∀ player ∈ d.registrations,
    identifier ≠ player.email ∧ identifier ≠ player.username) : d.find identifier = none := by
  have hnone : (d.accounts.findIdx? fun account =>
      if identifier.toList.contains '@' then account.email = identifier
      else account.username = identifier) = none := by
    refine List.findIdx?_eq_none_iff.mpr fun account haccount => ?_
    obtain ⟨i, hi⟩ := List.getElem?_of_mem haccount
    obtain ⟨haddress, hname⟩ := h _ (mem_registrations.mpr ⟨i, account, hi, rfl⟩)
    split
    · exact decide_eq_false haddress.symm
    · exact decide_eq_false hname.symm
  rw [find, hnone]
  rfl

end Directory

/-- After every run of calls and restarts, the players are numbered in the order in which
they registered, and no two of them have one name or one address. A login with a password
finds no player by another name or address; by a player's own it reaches this player, and
is decided by the password check, and by whether the key that it hands out is a new one. -/
theorem registry_players (verify : String → String → Option Bool) (calls : List AccountCall)
    (identifier password : String) (deviceLabel : Option String) (key : String) (now : ℕ) :
    let answers := (Registry.opened .migrated).answers verify calls
    let login := (((Registry.opened .migrated).after verify calls).answer verify
      (.authenticatePassword identifier password deviceLabel key now)).1
    (gather registered calls answers).map Registration.playerId =
        List.range' 1 (gather registered calls answers).length ∧
      ((gather registered calls answers).map Registration.email).Nodup ∧
      ((gather registered calls answers).map Registration.username).Nodup ∧
      ((∀ player ∈ gather registered calls answers,
          identifier ≠ player.email ∧ identifier ≠ player.username) →
        login = some (.error .badCredentials)) ∧
      ∀ player ∈ gather registered calls answers,
        identifier = player.email ∨ identifier = player.username →
          (verify password player.passwordHash = none → login = some (.error .hash)) ∧
          (verify password player.passwordHash = some false →
            login = some (.error .badCredentials)) ∧
          (verify password player.passwordHash = some true →
            ((∃ entry ∈ gather handedOut calls answers, entry.2 = key) →
              login = some (.error .database)) ∧
            ((∀ entry ∈ gather handedOut calls answers, entry.2 ≠ key) → ∃ record,
              login = some (.ok ⟨record, key, (gather handedOut calls answers).length + 1⟩) ∧
                record.playerId = player.playerId ∧ record.username = player.username)) := by
  intro answers login
  obtain ⟨hanswers, hafter⟩ := represents_empty.run verify calls
  have hsound := Directory.after_keeps Directory.Sound (Directory.sound_answer verify)
    (d := .empty) ⟨List.nodup_nil, List.nodup_nil,
      by simp [Directory.registrations, Directory.empty],
      by simp [Directory.registrations, Directory.empty]⟩ calls
  have hplayers := Directory.after_eq_gather (Directory.registrations_answer verify) .empty calls
  have hissued := Directory.after_eq_gather
    (fun d call => (Directory.issued_answer verify d call).1) .empty calls
  rw [← hanswers] at hplayers hissued
  change _ = gather _ _ answers at hplayers hissued
  have hlogin : login = ((Directory.empty.after verify calls).settle
      ((Directory.empty.after verify calls).authenticatePassword verify identifier password
        key)).1 :=
    (hafter.answer verify (.authenticatePassword identifier password deviceLabel key now)).1
  rw [← hplayers, ← hissued, hlogin]
  generalize Directory.empty.after verify calls = d at hsound
  refine ⟨?_, hsound.addresses, hsound.names, fun hunknown => ?_, fun player hplayer hid => ?_⟩
  · refine List.ext_getElem (by simp) fun i hi hi' => ?_
    simp [Directory.registrations, Nat.add_comm]
  · rw [Directory.authenticatePassword, Directory.find_eq_none hunknown]
    rfl
  · obtain ⟨account, hfind, hname, hhash⟩ := Directory.find_of_mem hsound hplayer hid
    rw [Directory.authenticatePassword, hfind]
    dsimp only
    rw [← hhash]
    refine ⟨fun hverify => ?_, fun hverify => ?_, fun hverify => ⟨?_, ?_⟩⟩
    · rw [hverify]
      rfl
    · rw [hverify]
      rfl
    · rintro ⟨entry, hentry, hkey⟩
      rw [hverify]
      dsimp only
      rw [Directory.issue, if_pos (List.any_eq_true.mpr ⟨entry, hentry, by simpa using hkey⟩)]
      rfl
    · intro hnew
      rw [hverify]
      dsimp only
      rw [Directory.issue, if_neg]
      · exact ⟨_, rfl, rfl, hname⟩
      · rintro hany
        obtain ⟨entry, hentry, hkey⟩ := List.any_eq_true.mp hany
        exact hnew entry hentry (of_decide_eq_true hkey)

end VibePoker.Server
