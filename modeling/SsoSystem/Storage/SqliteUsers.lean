/-
SsoSystem.Storage.SqliteUsers — the users table of the SQLite backend
(src/storage_sqlite.c, sql/sqlite/schema.sql).

`bind_user` fills the eleven columns the `INSERT` names, and `read_user` takes
the columns of `SELECT *` by their numbers, which are those of the schema. An
update binds an empty phone as a text where a create binds NULL, and the phone
is UNIQUE. The SQL engine is given: rows, UNIQUE (no two equal values other than
NULL), AUTOINCREMENT, and its conversions between numbers and texts.
-/
import SsoSystem.Lib.Decimal
import SsoSystem.Lib.Run
import SsoSystem.Storage.Records
import SsoSystem.Types

namespace SsoSystem.Sqlite

open CMem Run List Option

/-! ## §1 Rows -/

inductive Value where
  | null
  | int (n : Int64)
  | text (t : Bytes)
  deriving DecidableEq

/-- How the engine turns a number into a text and a text into a number. -/
structure Engine where
  intText : Int64 → Bytes
  textInt : Bytes → Int64

variable (eng : Engine) (r : Row)

/-- `sqlite3_column_text`; a NULL column leaves the zeroed field. -/
def Engine.columnText : Value → Bytes
  | .null => []
  | .int n => eng.intText n
  | .text t => t

/-- `sqlite3_column_int64`; `sqlite3_column_int` keeps the lower half. -/
def Engine.columnInt64 : Value → Int64
  | .null => 0
  | .int n => n
  | .text t => eng.textInt t

/-- A row of `users`: id, username, phone, password_hash, email, display_name, status,
created_at, updated_at, password_set_at, attributes, mfa_enabled, mfa_secret. -/
abbrev Row := List Value

def Row.column (i : Nat) : Value := r.getD i .null

/-- `user_t`. -/
structure UserRecord where
  id : UInt64
  username : Chars 64
  phone : Chars 32
  passwordHash : Chars 256
  email : Chars 128
  displayName : Chars 128
  status : Int32
  createdAt : Int64
  updatedAt : Int64
  attributes : Chars 2048
  mfaEnabled : Int32
  mfaSecret : Chars 64
  passwordSetAt : Int64
  deriving DecidableEq

/-- An empty username or phone is bound as NULL. -/
def textOrNull (t : Bytes) : Value := if t = [] then .null else .text t

/-- The row of the `INSERT`. It has no twelfth parameter, so `password_set_at` keeps its
default. -/
def bindUser (id : UInt64) (u : UserRecord) : Row :=
  [.int id.toInt64, textOrNull u.username.val, textOrNull u.phone.val, .text u.passwordHash.val,
    .text u.email.val, .text u.displayName.val, .int u.status.toInt64, .int u.createdAt,
    .int u.updatedAt, .int 0, .text u.attributes.val, .int u.mfaEnabled.toInt64,
    .text u.mfaSecret.val]

/-- The row after `UPDATE users SET …`. -/
def Row.update (u : UserRecord) : Row :=
  [r.column 0, r.column 1, .text u.phone.val, .text u.passwordHash.val, .text u.email.val,
    .text u.displayName.val, .int u.status.toInt64, r.column 7, .int u.updatedAt,
    .int u.passwordSetAt, .text u.attributes.val, .int u.mfaEnabled.toInt64, .text u.mfaSecret.val]

def readUser : UserRecord where
  id := (eng.columnInt64 (r.column 0)).toUInt64
  username := Chars.copy 64 (eng.columnText (r.column 1))
  phone := Chars.copy 32 (eng.columnText (r.column 2))
  passwordHash := Chars.copy 256 (eng.columnText (r.column 3))
  email := Chars.copy 128 (eng.columnText (r.column 4))
  displayName := Chars.copy 128 (eng.columnText (r.column 5))
  status := (eng.columnInt64 (r.column 6)).toInt32
  createdAt := eng.columnInt64 (r.column 7)
  updatedAt := eng.columnInt64 (r.column 8)
  attributes := Chars.copy 2048 (eng.columnText (r.column 9))
  mfaEnabled := (eng.columnInt64 (r.column 10)).toInt32
  mfaSecret := Chars.copy 64 (eng.columnText (r.column 11))
  passwordSetAt := eng.columnInt64 (r.column 12)

/-! ## §2 The table -/

structure Users where
  rows : List Row
  /-- The last id given out. -/
  seq : Nat

/-- Two values that UNIQUE does not let stand beside each other. -/
def Value.clashes (a b : Value) : Bool := a == b && a != .null

namespace Users

variable (s : Users) (u : UserRecord)

/-- `sqlite_user_create`: the table and the struct with its id. -/
def userCreate : Except SsoError (Users × UserRecord) :=
  let id := UInt64.ofNat (s.seq + 1)
  let row := bindUser id u
  if s.rows.any fun r =>
      (r.column 1).clashes (row.column 1) || (r.column 2).clashes (row.column 2) then
    .error .alreadyExists
  -- the ids are used up: SQLITE_FULL
  else if 2 ^ 63 ≤ s.seq + 1 then .error .storage
  else .ok (⟨row :: s.rows, s.seq + 1⟩, { u with id })

/-- `sqlite_user_get_by_id`. -/
def userGetById (eng : Engine) (id : UInt64) : Option UserRecord :=
  (s.rows.find? fun r => r.column 0 == .int id.toInt64).map (readUser eng)

/-- Another row has the phone already. -/
def phoneTaken : Prop :=
  ∃ r ∈ s.rows, r.column 0 ≠ .int u.id.toInt64 ∧ r.column 2 = .text u.phone.val

instance : Decidable (s.phoneTaken u) :=
  inferInstanceAs
    (Decidable (∃ r ∈ s.rows, r.column 0 ≠ .int u.id.toInt64 ∧ r.column 2 = .text u.phone.val))

/-- `sqlite_user_update`; no row with the id is no error. -/
def userUpdate : Except SsoError Users :=
  if (∃ r ∈ s.rows, r.column 0 = .int u.id.toInt64) ∧ s.phoneTaken u then .error .storage
  else .ok
    { s with rows := s.rows.map fun r => if r.column 0 = .int u.id.toInt64 then r.update u else r }

/-! ## §3 Sequences of calls -/

inductive UserCall where
  | create (u : UserRecord)
  | update (u : UserRecord)

/-- A call that fails leaves the table as it is. -/
def step : UserCall → Option Users
  | .create u => some (((s.userCreate u).toOption.map Prod.fst).getD s)
  | .update u => some ((s.userUpdate u).toOption.getD s)

/-- A user that was created is read back as it was given; an update succeeds and changes no
other user. -/
def CallOk (eng : Engine) : UserCall → Prop
  | .create u => ∀ s' u', s.userCreate u = .ok (s', u') → s'.userGetById eng u'.id = some u'
  | .update u => ∃ s', s.userUpdate u = .ok s' ∧
      ∀ id, id ≠ u.id → s'.userGetById eng id = s.userGetById eng id

/-- The fields that `read_user` takes from the columns beside them are as those columns give
them. -/
structure Unshifted (eng : Engine) (u : UserRecord) : Prop where
  attributes : Chars.copy 2048 (eng.intText 0) = u.attributes
  mfaEnabled : (eng.textInt u.attributes.val).toInt32 = u.mfaEnabled
  mfaSecret : Chars.copy 64 (eng.intText u.mfaEnabled.toInt64) = u.mfaSecret
  passwordSetAt : eng.textInt u.mfaSecret.val = u.passwordSetAt

/-- The user can be created: no row has the name or the phone, if these are not empty, and
there is an id left. -/
structure Free (u : UserRecord) : Prop where
  username : ∀ r ∈ s.rows, u.username.val = [] ∨ r.column 1 ≠ .text u.username.val
  phone : ∀ r ∈ s.rows, u.phone.val = [] ∨ r.column 2 ≠ .text u.phone.val
  id : s.seq + 1 < 2 ^ 63

/-- The calls that do what they should. -/
def Safe (eng : Engine) : UserCall → Prop
  | .create u => s.Free u → Unshifted eng u
  | .update u => (∃ r ∈ s.rows, r.column 0 = .int u.id.toInt64) → ¬s.phoneTaken u

variable {s} {eng : Engine} {u : UserRecord}

theorem columnText_textOrNull (t : Bytes) : eng.columnText (textOrNull t) = t := by
  unfold textOrNull
  split_ifs with h
  · exact h.symm
  · rfl

theorem readUser_bindUser_iff (id : UInt64) :
    readUser eng (bindUser id u) = { u with id } ↔ Unshifted eng u := by
  simp only [readUser, Row.column, bindUser, getD_cons_zero, getD_cons_succ,
    columnText_textOrNull, UserRecord.mk.injEq]
  simp only [Engine.columnInt64, Engine.columnText, Int32.toInt32_toInt64, UInt64.toUInt64_toInt64,
    copy_val (by decide : 0 < 64), copy_val (by decide : 0 < 32), copy_val (by decide : 0 < 256),
    copy_val (by decide : 0 < 128), true_and]
  exact ⟨fun h => ⟨h.1, h.2.1, h.2.2.1, h.2.2.2⟩, fun h => ⟨h.1, h.2, h.3, h.4⟩⟩

theorem clashes_textOrNull (v : Value) (t : Bytes) :
    v.clashes (textOrNull t) = false ↔ t = [] ∨ v ≠ .text t := by
  unfold Value.clashes textOrNull
  split_ifs with h
  · simp [h]
  · simp only [h, false_or, Bool.and_eq_false_iff, beq_eq_false_iff_ne, bne_eq_false_iff_eq]
    refine or_iff_left_of_imp ?_
    rintro rfl
    nofun

/-- A user that can be created is created. -/
theorem exists_userCreate_iff : (∃ out, s.userCreate u = .ok out) ↔ s.Free u := by
  have hclash :
    (s.rows.any fun r => (r.column 1).clashes ((bindUser (UInt64.ofNat (s.seq + 1)) u).column 1)
      || (r.column 2).clashes ((bindUser (UInt64.ofNat (s.seq + 1)) u).column 2)) = false ↔
      (∀ r ∈ s.rows, u.username.val = [] ∨ r.column 1 ≠ .text u.username.val) ∧
        ∀ r ∈ s.rows, u.phone.val = [] ∨ r.column 2 ≠ .text u.phone.val := by
    rw [List.any_eq_false, ← forall₂_and]
    refine forall₂_congr fun r _ => ?_
    rw [Bool.not_eq_true, Bool.or_eq_false_iff, ← clashes_textOrNull, ← clashes_textOrNull]
    rfl
  simp only [userCreate]
  split
  · next hany =>
    refine iff_of_false (by nofun) fun h => ?_
    rw [hclash.mpr ⟨h.username, h.phone⟩] at hany
    cases hany
  · next hany =>
    have hfree := hclash.mp (Bool.not_eq_true _ ▸ hany)
    split
    · next hfull => exact iff_of_false (by nofun) fun h => absurd h.id (by omega)
    · next hid => exact iff_of_true ⟨_, rfl⟩ ⟨hfree.1, hfree.2, by omega⟩

theorem userGetById_of_userCreate {s' : Users} {u' : UserRecord}
    (h : s.userCreate u = .ok (s', u')) :
    s'.userGetById eng u'.id = some u' ↔ Unshifted eng u := by
  simp only [userCreate] at h
  split at h
  · cases h
  · split at h
    · cases h
    · cases h
      rw [userGetById, find?_cons_of_pos (by simp [bindUser, Row.column]), map_some, some.injEq]
      exact readUser_bindUser_iff _

theorem userGetById_map {id : UInt64} (hne : id ≠ u.id) (rows : List Row) :
    (rows.map fun r => if r.column 0 = .int u.id.toInt64 then r.update u else r).find?
        (fun r => r.column 0 == .int id.toInt64) = rows.find? fun r => r.column 0 ==
          .int id.toInt64 := by
  have hids : ∀ {a b : UInt64}, Value.int a.toInt64 = .int b.toInt64 → a = b := by
    intro a b h
    simpa using congrArg Int64.toUInt64 (Value.int.inj h)
  induction rows with
  | nil => rfl
  | cons r rows ih =>
    rw [map_cons, find?_cons, find?_cons, ih]
    by_cases h : r.column 0 = .int u.id.toInt64
    · have hother : (r.column 0 == .int id.toInt64) = false := by
        rw [h]
        exact beq_eq_false_iff_ne.mpr fun heq => hne (hids heq).symm
      rw [if_pos h, hother, show (r.update u).column 0 = r.column 0 from rfl, hother]
    · rw [if_neg h]

theorem callOk_iff (call : UserCall) : s.CallOk eng call ↔ s.Safe eng call := by
  cases call with
  | create u =>
    constructor
    · intro h hfree
      obtain ⟨⟨s', u'⟩, hcreate⟩ := exists_userCreate_iff.mpr hfree
      exact (userGetById_of_userCreate hcreate).mp (h s' u' hcreate)
    · intro h s' u' hcreate
      exact (userGetById_of_userCreate hcreate).mpr (h (exists_userCreate_iff.mp ⟨_, hcreate⟩))
  | update u =>
    constructor
    · rintro ⟨s', hupdate, -⟩ hrow htaken
      rw [userUpdate, if_pos ⟨hrow, htaken⟩] at hupdate
      cases hupdate
    · intro h
      refine ⟨_, if_neg fun hbad => h hbad.1 hbad.2, fun id hne => ?_⟩
      exact congrArg (Option.map (readUser eng)) (userGetById_map hne s.rows)

/-- Over every sequence of creates and updates all calls do what they should exactly if every
user that is created has the four fields as the shifted columns give them, and no user is
updated to a phone, the empty one included, that another row has as a text. -/
theorem users_ok_iff (eng : Engine) (calls : List UserCall) :
    Along step (CallOk · eng) calls ⟨[], 0⟩ ↔ Along step (Safe · eng) calls ⟨[], 0⟩ :=
  ⟨Along.mono fun _ call => (callOk_iff call).mp, Along.mono fun _ call => (callOk_iff call).mpr⟩

/-- Decimal conversions. -/
def plainEngine : Engine :=
    ⟨fun n => Decimal.signedDecimal n.toInt, fun t => Int64.ofInt (Decimal.atoll t)⟩

/-- A user without a phone. -/
def phoneless (id : UInt64) (name : String) : UserRecord :=
  ⟨id, .copy 64 (lit name), .copy 32 [], .copy 256 (lit "h"), .copy 128 [], .copy 128 [], 1, 5, 5,
    .copy 2048 (lit "level=3"), 0, .copy 64 [], 5⟩

/-- A user comes back with other attributes and without the time of its password; and the
second of two users without a phone cannot be updated once the first has been. -/
theorem users_broken : ((userCreate ⟨[], 0⟩ (phoneless 0 "ada")).toOption.bind fun out =>
      (out.1.userGetById plainEngine 1).map fun u => (u.attributes.val, u.passwordSetAt)) =
      some (lit "0", 0) ∧
    (run step [.create (phoneless 0 "ada"), .create (phoneless 0 "bob"),
      .update (phoneless 1 "ada")]
      ⟨[], 0⟩).map (fun s => (s.userUpdate (phoneless 2 "bob")).toOption.isSome) = some false := by
  decide +kernel

end Users

end SsoSystem.Sqlite
