/-
SsoSystem.Http.Passwords — `user_create` and `user_set_password`
(src/user.c), with the hash function allowed to fail.

`hash_password` has no return value: when `crypto_pwhash_str` fails it leaves
an empty text in the buffer, and both callers write whatever is there. What
`crypto_pwhash_str` returned is therefore an argument of the two functions
here. What libsodium promises is stated by two predicates: a hash it made is
accepted for its password (`HashVerifies`), an empty one for none
(`RefusesEmptyHash`).

A change is all or nothing exactly if it is refused, or takes
(`PasswordCall.password_change_iff`); both are read off the store before it.
-/
import SsoSystem.Http.Management

namespace SsoSystem

open CMem List Server

/-! ## §1 The functions -/

/-- `crypto_pwhash_str_verify` accepts no empty hash. -/
def RefusesEmptyHash (P : Platform) : Prop := ∀ password, P.pwhashVerify [] password = false

/-- What `crypto_pwhash_str` left, if it did not fail, is accepted for the password. -/
def HashVerifies (P : Platform) (password : Bytes) (pwhash : Option Bytes) : Prop :=
  ∀ hash, pwhash = some hash → P.pwhashVerify hash password = true

/-- `hash_password` into a field of 256 bytes, which is enough for every hash. -/
def hashPassword (result : Option Bytes) : Bytes := result.getD []

/-- The record `user_create` makes of its arguments; NULL is `none`. -/
def newUser (now : Int64) (username : Bytes) (email displayName pwhash : Option Bytes) : User where
  id := 0
  username := strlcpy 64 username
  phone := []
  status := .active
  passwordHash := hashPassword pwhash
  passwordSetAt := now
  email := strlcpy 128 (email.getD [])
  displayName := strlcpy 128 (displayName.getD [])

/-- `user_create`. -/
def userCreate (sys : System) (now : Int64) (username password email displayName : Option Bytes)
    (pwhash : Option Bytes) : SsoError × System :=
  match username, password with
  | some username, some _ =>
    (Mutation.userCreate (newUser now username email displayName pwhash)).run sys
  | _, _ => (.invalidParam, sys)

def User.withPassword (user : User) (now : Int64) (pwhash : Option Bytes) : User :=
  { user with passwordHash := hashPassword pwhash, passwordSetAt := now }

/-- `user_set_password`. -/
def userSetPassword (sys : System) (now : Int64) (userId : Nat) (newPassword : Option Bytes)
    (pwhash : Option Bytes) : SsoError × System :=
  match newPassword with
  | none => (.invalidParam, sys)
  | some _ =>
    match sys.store.userGetById userId with
    | none => (.notFound, sys)
    | some user => (Mutation.userUpdate (user.withPassword now pwhash)).run sys

/-! ## §2 What a password change promises -/

/-- A call of one of the two functions, without the password. -/
inductive PasswordCall where
  | create (username email displayName : Option Bytes)
  | set (userId : Nat)

namespace PasswordCall

def run (sys : System) (now : Int64) (password pwhash : Option Bytes) :
    PasswordCall → SsoError × System
  | .create username email displayName =>
    userCreate sys now username password email displayName pwhash
  | .set userId => userSetPassword sys now userId password pwhash

/-- The name to log in with afterwards, and the record the call writes. -/
def account (s : Store) (now : Int64) (pwhash : Option Bytes) : PasswordCall → Option (Bytes × User)
  | .create username email displayName => username.map fun username =>
    (username, { newUser now username email displayName pwhash with id := s.nextUid })
  | .set userId => (s.userGetById userId).map fun user =>
    (user.username, user.withPassword now pwhash)

section

variable (P : Platform) (cfg : ServerConfig) (sys : System) (now : Int64)
  (password pwhash : Option Bytes)

/-- All or nothing: after `SSO_OK` the password logs in to the record that was written; after
an error every stored hash and every later login is as before. -/
structure AllOrNothing (c : PasswordCall) : Prop where
  ok : (c.run sys now password pwhash).1 = .ok →
    ∃ name user, c.account sys.store now pwhash = some (name, user) ∧
      userAuthenticate P cfg now
        ((c.run sys now password pwhash).2.store.userGetByName name)
        (password.getD []) = some user
  error : (c.run sys now password pwhash).1 ≠ .ok →
    (∀ id, ((c.run sys now password pwhash).2.store.userGetById id).map User.passwordHash =
      (sys.store.userGetById id).map User.passwordHash) ∧ ∀ later name password',
      userAuthenticate P cfg later
          ((c.run sys now password pwhash).2.store.userGetByName name) password' =
        userAuthenticate P cfg later (sys.store.userGetByName name) password'

end

/-- The call writes nothing: an argument is NULL, the new user's name is taken, or there is no
such user. -/
def Refused (s : Store) (password : Option Bytes) : PasswordCall → Prop
  | .create username _ _ => password = none ∨ ∀ name, username = some name →
    cstr (strlcpy 64 name) ≠ [] ∧ (s.userGetByName (strlcpy 64 name)).isSome
  | .set userId => password = none ∨ s.userGetById userId = none

/-- A login by name comes to the record: a new user's name fits its field and belongs to no
other record, a user whose password is changed is active and the first of their name. -/
def Reached (s : Store) (now : Int64) (pwhash : Option Bytes) : PasswordCall → Prop
  | .create username email displayName => ∃ name, username = some name ∧
    (cstr name).length < 64 ∧
    ∀ user, s.userGetByName name = some user →
      user = { newUser now name email displayName pwhash with id := s.nextUid }
  | .set userId => ∃ user, s.userGetById userId = some user ∧ user.status = .active ∧
    s.userGetByName user.username = some user

/-- The hash function worked, a login comes to the record, and the password is not yet too
old in the moment it is set. -/
structure Takes (cfg : ServerConfig) (s : Store) (now : Int64) (pwhash : Option Bytes)
    (c : PasswordCall) : Prop where
  hashed : pwhash.isSome
  reached : c.Reached s now pwhash
  lasting : ¬(cfg.passwordExpiryDays > 0 ∧ now > 0 ∧ now + cfg.passwordExpiryDays * 86400000 < now)

/-! ## §3 The exact condition -/

variable {P : Platform} {cfg : ServerConfig} {sys : System} {now : Int64}
  {password : Option Bytes} {c : PasswordCall} {pwhash : Option Bytes}

theorem run_ok_iff : (c.run sys now password pwhash).1 = .ok ↔ ¬ c.Refused sys.store password := by
  cases c with
  | create username email displayName =>
    cases username with
    | none => simp [run, userCreate, Refused]
    | some name =>
      cases password with
      | none => simp [run, userCreate, Refused]
      | some password =>
        simp only [run, userCreate, Mutation.run, Mutation.storeWrite, Store.userCreate, Refused,
          reduceCtorEq, false_or, Option.some.injEq, forall_eq']
        by_cases htaken : cstr (newUser now name email displayName pwhash).username ≠ [] ∧
            (sys.store.userGetByName
              (newUser now name email displayName pwhash).username).isSome = true
        · rw [if_pos htaken]
          exact iff_of_false nofun (not_not.mpr htaken)
        · rw [if_neg htaken]
          exact iff_of_true rfl htaken
  | set userId =>
    cases password with
    | none => simp [run, userSetPassword, Refused]
    | some password =>
      cases hget : sys.store.userGetById userId with
      | none => simp [run, userSetPassword, hget, Refused]
      | some user =>
        have hid : user.id = userId := by simpa using find?_some hget
        simp [run, userSetPassword, hget, Refused, Mutation.run, Mutation.storeWrite,
          Store.userUpdate, User.withPassword, hid, mutate]

theorem run_of_error (h : (c.run sys now password pwhash).1 ≠ .ok) :
    (c.run sys now password pwhash).2 = sys := by
  have hmutate : ∀ write inv, (mutate sys write inv).1 ≠ .ok → (mutate sys write inv).2 = sys := by
    intro write inv
    cases write with
    | error err => exact fun _ => rfl
    | ok store => exact fun h => absurd rfl h
  cases c with
  | create username email displayName =>
    cases username with
    | none => rfl
    | some username =>
      cases password with
      | none => rfl
      | some password => exact hmutate _ _ h
  | set userId =>
    cases password with
    | none => rfl
    | some password =>
      revert h
      simp only [run, userSetPassword]
      cases sys.store.userGetById userId with
      | none => exact fun _ => rfl
      | some user => exact hmutate _ _

theorem userAuthenticate_eq_some_iff {now' : Int64} {stored : Option User} {password : Bytes}
    {user : User} :
    userAuthenticate P cfg now' stored password = some user ↔
      stored = some user ∧ user.status = .active ∧
        P.pwhashVerify user.passwordHash password = true ∧
        ¬(cfg.passwordExpiryDays > 0 ∧ user.passwordSetAt > 0 ∧
          user.passwordSetAt + cfg.passwordExpiryDays * 86400000 < now') := by
  rw [userAuthenticate, Option.filter_eq_some_iff]
  simp only [Bool.and_eq_true, Bool.not_eq_true', beq_iff_eq, Bool.and_eq_false_iff,
    decide_eq_false_iff_not, not_and_or, and_assoc, or_assoc]

theorem pwhashVerify_hashPassword (hempty : RefusesEmptyHash P)
    (hhash : HashVerifies P (password.getD []) pwhash) :
    P.pwhashVerify (hashPassword pwhash) (password.getD []) = true ↔ pwhash.isSome := by
  cases pwhash with
  | none => simp [hashPassword, hempty _]
  | some hash => simp [hashPassword, hhash hash rfl]

/-- Overwriting the first record that satisfies `p` by another such record leaves open only
whether the first record that satisfies `q` is the one overwritten. -/
theorem find?_replaceFirst_iff {α : Type} {p q : α → Bool} {x a : α} (hpx : p x = true)
    (hqx : q x = true) (hqa : q a = true) : ∀ {l : List α}, l.find? p = some a →
      ((replaceFirst p x l).find? q = some x ↔ l.find? q = some a)
  | [], h => by cases h
  | y :: l, h => by
    rw [replaceFirst]
    cases hpy : p y with
    | true =>
      rw [List.find?_cons_of_pos hpy] at h
      cases h
      simp [hqx, hqa]
    | false =>
      rw [List.find?_cons_of_neg (by simp [hpy])] at h
      rw [if_neg (by simp)]
      cases hqy : q y with
      | true =>
        -- `y` is found in both lists, and is neither the old nor the new record
        have hya : y ≠ a := by
          rintro rfl
          simp [find?_some h] at hpy
        have hyx : y ≠ x := by
          rintro rfl
          simp [hpx] at hpy
        simp [hqy, hya, hyx]
      | false =>
        rw [find?_cons_of_neg (by simp [hqy]), find?_cons_of_neg (by simp [hqy])]
        exact find?_replaceFirst_iff hpx hqx hqa h

theorem find?_append_singleton_iff {α : Type} {q : α → Bool} {x : α} {l : List α} :
    (l ++ [x]).find? q = some x ↔ q x = true ∧ ∀ y, l.find? q = some y → y = x := by
  rw [find?_append]
  cases hl : l.find? q with
  | none => simp
  | some y =>
    simp only [Option.some_or, Option.some.injEq, forall_eq']
    exact ⟨fun h => ⟨h ▸ find?_some hl, h⟩, fun h => h.2⟩

theorem strEq_strlcpy_iff {size : Nat} {name : Bytes} :
    strEq (strlcpy (size + 1) name) name = true ↔ (cstr name).length < size + 1 := by
  have hcut : cstr (strlcpy (size + 1) name) = (cstr name).take size :=
    cstr_eq_self (not_mem_strlcpy _ _)
  rw [strEq, beq_iff_eq, hcut, Nat.lt_succ_iff]
  refine ⟨fun hwhole => ?_, take_of_length_le⟩
  rw [← hwhole]
  exact length_take_le size _

theorem userGetByName_userCreate {name : Bytes} {password : Bytes}
    {email displayName : Option Bytes}
    (hok : (userCreate sys now (some name) (some password) email displayName pwhash).1 = .ok) :
    (userCreate sys now (some name) (some password) email displayName pwhash).2.store.userGetByName
        name = some { newUser now name email displayName pwhash with id := sys.store.nextUid } ↔
      (cstr name).length < 64 ∧ ∀ user, sys.store.userGetByName name = some user →
        user = { newUser now name email displayName pwhash with id := sys.store.nextUid } := by
  simp only [userCreate, Mutation.run, Mutation.storeWrite, Store.userCreate] at hok ⊢
  split at hok
  · cases hok
  · next hfree =>
    rw [if_neg hfree]
    exact find?_append_singleton_iff.trans (and_congr_left' strEq_strlcpy_iff)

theorem userGetByName_userSetPassword {userId : Nat} {user : User} {password : Bytes}
    (hget : sys.store.userGetById userId = some user) :
    (userSetPassword sys now userId (some password) pwhash).2.store.userGetByName user.username =
        some (user.withPassword now pwhash) ↔
      sys.store.userGetByName user.username = some user := by
  have hid : user.id = userId := by simpa using find?_some hget
  have hsome : (sys.store.userGetById (user.withPassword now pwhash).id).isSome := by
    rw [show (user.withPassword now pwhash).id = userId from hid, hget]
    rfl
  simp only [userSetPassword, hget, Mutation.run, Mutation.storeWrite, Store.userUpdate,
    if_pos hsome, mutate]
  refine find?_replaceFirst_iff ?_ ?_ ?_ ?_
  · simp
  · simp [strEq, User.withPassword]
  · simp [strEq]
  · rw [show (user.withPassword now pwhash).id = userId from hid]
    exact hget

/-- The condition that a login comes to the record, read off the store after the call. -/
theorem reached_iff (hok : (c.run sys now password pwhash).1 = .ok) :
    c.Reached sys.store now pwhash ↔ ∃ name user,
      c.account sys.store now pwhash = some (name, user) ∧
      (c.run sys now password pwhash).2.store.userGetByName name = some user ∧
      user.status = .active := by
  cases c with
  | create username email displayName =>
    match username, password, hok with
    | some name, some password, hok =>
      have hfound := @userGetByName_userCreate sys now pwhash name password email displayName hok
      constructor
      · rintro ⟨_, hname, hreached⟩
        cases hname
        exact ⟨name, _, rfl, hfound.mpr hreached, rfl⟩
      · rintro ⟨_, _, haccount, hafter, -⟩
        cases haccount
        exact ⟨name, rfl, hfound.mp hafter⟩
  | set userId =>
    match password, hok with
    | some password, hok =>
      cases hget : sys.store.userGetById userId with
      | none => simp [run, userSetPassword, hget] at hok
      | some user =>
        have hfound := @userGetByName_userSetPassword sys now pwhash userId user password hget
        have haccount : (PasswordCall.set userId).account sys.store now pwhash =
            some (user.username, user.withPassword now pwhash) := by simp [account, hget]
        constructor
        · rintro ⟨_, hget', hactive, hreached⟩
          cases hget.symm.trans hget'
          exact ⟨_, _, haccount, hfound.mpr hreached, hactive⟩
        · rintro ⟨_, _, haccount', hafter, hactive⟩
          cases haccount.symm.trans haccount'
          exact ⟨user, hget, hactive, hfound.mp hafter⟩

theorem account_spec {s : Store} {name : Bytes} {user : User}
    (h : c.account s now pwhash = some (name, user)) :
    user.passwordHash = hashPassword pwhash ∧ user.passwordSetAt = now := by
  cases c with
  | create | set =>
    obtain ⟨_, -, heq⟩ := Option.map_eq_some_iff.mp h
    cases heq
    exact ⟨rfl, rfl⟩

/-- **All or nothing**: exactly if the call is refused, or the hash function worked and a login
comes to the record. -/
theorem password_change_iff (P : Platform) (hempty : RefusesEmptyHash P) (cfg : ServerConfig)
    (sys : System) (now : Int64) (password pwhash : Option Bytes)
    (hhash : HashVerifies P (password.getD []) pwhash) (c : PasswordCall) :
    c.AllOrNothing P cfg sys now password pwhash ↔
      c.Refused sys.store password ∨ c.Takes cfg sys.store now pwhash := by
  constructor
  · rw [or_iff_not_imp_left]
    intro h hrefused
    have hok : (c.run sys now password pwhash).1 = .ok := run_ok_iff.mpr hrefused
    obtain ⟨name, user, haccount, hlogin⟩ := h.ok hok
    obtain ⟨hfound, hactive, hverify, hlasting⟩ := userAuthenticate_eq_some_iff.mp hlogin
    obtain ⟨hwritten, htime⟩ := account_spec haccount
    rw [hwritten, pwhashVerify_hashPassword hempty hhash] at hverify
    rw [htime] at hlasting
    exact ⟨hverify, (reached_iff hok).mpr ⟨name, user, haccount, hfound, hactive⟩, hlasting⟩
  · intro h
    refine ⟨fun hok => ?_, fun herr => ?_⟩
    · obtain ⟨hhashed, hreached, hlasting⟩ := h.resolve_left (run_ok_iff.mp hok)
      obtain ⟨name, user, haccount, hfound, hactive⟩ := (reached_iff hok).mp hreached
      obtain ⟨hwritten, htime⟩ := account_spec haccount
      refine ⟨name, user, haccount, userAuthenticate_eq_some_iff.mpr ⟨hfound, hactive, ?_, ?_⟩⟩
      · rw [hwritten]
        exact (pwhashVerify_hashPassword hempty hhash).mpr hhashed
      · rwa [htime]
    · rw [run_of_error herr]
      exact ⟨fun _ => rfl, fun _ _ _ => rfl⟩

/-! ### A failed hash -/

/-- A platform whose hashes are the passwords behind a dollar sign. -/
def dollarPlatform : Platform :=
  { samplePlatform with pwhashVerify := fun hash password => hash == 36 :: password }

def adaSystem : System :=
  (sampleServer
    [{ id := 1
       username := lit "ada"
       phone := []
       status := .active
       passwordHash := lit "$old" }]).sys

/-- Ada sets a new password, bob is created, and a second ada is refused. -/
theorem dollarHash_changes :
    let allOrNothing (c : PasswordCall) := c.AllOrNothing dollarPlatform sampleConfig adaSystem 5
      (some (lit "new")) (some (lit "$new"))
    allOrNothing (.set 1) ∧ allOrNothing (.create (some (lit "bob")) none none) ∧
      allOrNothing (.create (some (lit "ada")) none none) := by
  have hhash : HashVerifies dollarPlatform ((some (lit "new")).getD []) (some (lit "$new")) := by
    rintro _ ⟨⟩
    decide
  have hlasting : ¬(sampleConfig.passwordExpiryDays > 0 ∧ (5 : Int64) > 0 ∧
      5 + sampleConfig.passwordExpiryDays * 86400000 < 5) := by decide
  refine ⟨(password_change_iff _ (fun _ => rfl) _ _ _ _ _ hhash _).mpr (.inr ⟨rfl, ?_, hlasting⟩),
    (password_change_iff _ (fun _ => rfl) _ _ _ _ _ hhash _).mpr (.inr ⟨rfl, ?_, hlasting⟩),
    (password_change_iff _ (fun _ => rfl) _ _ _ _ _ hhash _).mpr (.inl (.inr ?_))⟩
  · exact ⟨_, rfl, rfl, rfl⟩
  · have hfree : adaSystem.store.userGetByName (lit "bob") = none := by decide
    exact ⟨_, rfl, by decide, fun user h => absurd (hfree.symm.trans h) nofun⟩
  · rintro _ ⟨⟩
    decide

/-- The hash function fails while a user changes their password: the call returns `SSO_OK`,
and neither the new nor the old password logs in any more. -/
theorem failed_hash_locks_out :
    (userSetPassword adaSystem 5 1 (some (lit "new")) none).1 = .ok ∧
      (userAuthenticate dollarPlatform sampleConfig 5
        (adaSystem.store.userGetByName (lit "ada")) (lit "old")).isSome ∧
      (∀ password, userAuthenticate dollarPlatform sampleConfig 5
        ((userSetPassword adaSystem 5 1 (some (lit "new")) none).2.store.userGetByName (lit "ada"))
        password = none) ∧
      ¬(PasswordCall.set 1).AllOrNothing dollarPlatform sampleConfig adaSystem 5 (some (lit "new"))
        none := by
  have hok : (userSetPassword adaSystem 5 1 (some (lit "new")) none).1 = .ok := by decide
  have hnone : ∀ password, userAuthenticate dollarPlatform sampleConfig 5
      ((userSetPassword adaSystem 5 1 (some (lit "new")) none).2.store.userGetByName (lit "ada"))
      password = none := by
    intro password
    rw [Option.eq_none_iff_forall_ne_some]
    intro user huser
    obtain ⟨hfound, -, hverify, -⟩ := userAuthenticate_eq_some_iff.mp huser
    have hhash : user.passwordHash = [] := by
      have hmap := congrArg (Option.map User.passwordHash) hfound
      exact (Option.some.inj hmap).symm
    rw [hhash] at hverify
    cases hverify
  refine ⟨hok, by decide, hnone, fun h => ?_⟩
  obtain ⟨name, user, haccount, hlogin⟩ := h.ok hok
  have hname : name = lit "ada" := by
    have hmap := congrArg (Option.map Prod.fst) haccount
    exact (Option.some.inj hmap).symm
  rw [hname] at hlogin
  exact absurd (hlogin.symm.trans (hnone _)) (by simp)

end PasswordCall

/-! ## §4 The handlers -/

theorem Server.snd_manage (s : Server) (m : Mutation) :
    (s.manage m).2 = { s with sys := (m.run s.sys).2 } := by
  unfold manage Mutation.run mutate
  cases m.storeWrite s.sys.store with
  | error err => cases err <;> rfl
  | ok store => rfl

section Handlers

variable {env : Moment} {result : Option Bytes} (hhash : hashPassword result = env.pwhash)
include hhash

/-- A change of password that passes the checks ends in `userSetPassword`. -/
theorem exec_handleChangePassword {req : Request} {auth : AuthUser} {s : Server} {password : Bytes}
    (hbody : req.hasBody = true) (htext : reqJsonStrValue req (lit "password") = some password)
    (hvalid : validatePassword (some password) = none) :
    ∃ answer, (handleChangePassword env req auth).exec Server.perform s = some (answer,
      { s with sys := (userSetPassword s.sys env.now auth.1.id (some password) result).2 }) := by
  simp only [handleChangePassword, hbody, htext, hvalid, userSetPassword, Bool.not_true,
    Bool.false_eq_true, if_false, Prog.exec, perform]
  cases hget : s.sys.store.userGetById auth.1.id with
  | none => exact ⟨_, rfl⟩
  | some user =>
    simp only [User.withPassword, hhash, ← snd_manage, Prog.exec, perform]
    cases (s.manage (.userUpdate
        { user with passwordHash := env.pwhash, passwordSetAt := env.now })).1 with
    | ok _ => exact ⟨_, rfl⟩
    | error _ => exact ⟨_, rfl⟩

/-- A new user with a valid password is created with its hash. -/
theorem exec_handleCreateUser {req : HttpRequest} {s : Server} {username password : Bytes}
    (hbody : req.hasBody = true) (hname : req.text "username" = some username)
    (htext : req.text "password" = some password) :
    ∃ answer, (handleCreateUser env req).exec Server.perform s = some (answer,
      { s with
        sys := (userCreate s.sys env.now (some username) (some password)
          (some ((req.text "email").getD [])) (some ((req.text "display_name").getD username))
          result).2 }) := by
  simp only [handleCreateUser, requireBody, hbody, hname, htext, creating, userCreate, newUser,
    hhash, ← snd_manage, Option.getD_some, Bool.not_true, Bool.false_eq_true, if_false,
    Prog.exec, perform]
  split
  · exact ⟨_, rfl⟩
  · exact ⟨_, rfl⟩
  · exact ⟨_, rfl⟩

end Handlers

end SsoSystem
