/-
SsoSystem.Storage.RedisTheorems — when an entity written to Redis is read back
as it was.

Four things go wrong (`redis_roundTrip_iff`):

  * an empty value, or one with spaces, shifts the pairs behind it, since the
    command text is split again and an empty word leaves no trace;
  * a percent sign makes the value a directive of the format;
  * a number is cut by the buffer it is printed into (`used`, `revoked`,
    `mfa_enabled`);
  * a field the function does not write, or the get function does not read, is
    given a value.
-/
import Mathlib.Data.Set.Finite.List
import Mathlib.Tactic.MkIffOfInductiveProp
import SsoSystem.Storage.Redis

namespace SsoSystem

open CMem Decimal Words List Option Prod

/-! ## §1 Values -/

/-- A record is read right if each of its fields is. -/
theorem Record.build_eq_iff {fs : List Field} (hnd : fs.Nodup)
    {value : (f : Field) → f.kind.Value} {rec : Record fs} :
    Record.build fs value = rec ↔ ∀ f ∈ fs, value f = rec.at f := by
  induction fs with
  | nil => exact iff_of_true rfl fun f hf => absurd hf not_mem_nil
  | cons g fs ih =>
    obtain ⟨hg, hnd⟩ := nodup_cons.mp hnd
    have hhead : rec.at g = rec.1 := dif_pos rfl
    have htail : ∀ f ∈ fs, rec.at f = Record.at rec.2 f := fun f hf =>
      dif_neg fun h : g = f => hg (h ▸ hf)
    have hcons : Record.build (g :: fs) value = rec ↔
        value g = rec.1 ∧ Record.build fs value = rec.2 := Prod.ext_iff
    rw [hcons, ih hnd, forall_mem_cons, hhead]
    exact and_congr_right fun _ => forall₂_congr fun f hf => by rw [htail f hf]

theorem signed_range_bool (v : Bool) : -2 ^ 63 ≤ (v.toNat : Int) ∧ (v.toNat : Int) < 2 ^ 63 := by
  cases v <;> decide

theorem signed_range_int (v : Int32) : -2 ^ 63 ≤ v.toInt ∧ v.toInt < 2 ^ 63 := by
  have h1 := v.le_toInt
  have h2 := v.toInt_lt
  omega

variable {m : Nat} {n : Int}

theorem signed_range_bmod (n : Int) (hm : 0 < m) (hle : m ≤ UInt64.size) :
    -2 ^ 63 ≤ n.bmod m ∧ n.bmod m < 2 ^ 63 := by
  have h1 := Int.le_bmod (x := n) hm
  have h2 := Int.bmod_lt (x := n) hm
  rw [UInt64.size] at hle
  omega

/-- Every integer field is printed as a signed 64 bit number. -/
theorem IntType.signed_range (t : IntType) (v : t.Value) :
    -2 ^ 63 ≤ t.signed v ∧ t.signed v < 2 ^ 63 := by
  cases t with
  | bool => exact signed_range_bool v
  | int => exact signed_range_int v
  | enum =>
    have h := signed_range_bmod (UInt32.toNat v) (m := UInt32.size) (by decide) (by decide)
    exact h
  | int64 => exact ⟨Int64.le_toInt v, Int64.toInt_lt v⟩
  | uint64 =>
    have h := signed_range_bmod (UInt64.toNat v) (m := UInt64.size) (by decide) (by decide)
    exact h

theorem uint32_ofInt_bmod (v : UInt32) : UInt32.ofInt ((v.toNat : Int).bmod UInt32.size) = v := by
  have h := v.toNat_lt
  apply UInt32.toNat_inj.mp
  simp only [UInt32.ofInt, UInt32.toNat_ofNat', Int.bmod_def, UInt32.size]
  split <;> omega

theorem uint64_ofInt_bmod (v : UInt64) : UInt64.ofInt ((v.toNat : Int).bmod UInt64.size) = v := by
  have h := v.toNat_lt
  apply UInt64.toNat_inj.mp
  simp only [UInt64.ofInt, UInt64.toNat_ofNat', Int.bmod_def, UInt64.size]
  split <;> omega

theorem decide_toNat_ne_zero (v : Bool) : decide ((v.toNat : Int) ≠ 0) = v := by
  cases v <;> rfl

/-- The cast back undoes the cast to a signed number. -/
theorem IntType.ofInt_signed (t : IntType) (v : t.Value) : t.ofInt (t.signed v) = v := by
  cases t with
  | bool => exact decide_toNat_ne_zero v
  | int => exact Int32.ofInt_toInt v
  | enum => exact uint32_ofInt_bmod v
  | int64 => exact Int64.ofInt_toInt v
  | uint64 => exact uint64_ofInt_bmod v

/-- The number lies between zero and another. -/
def Within (n m : Int) : Prop := 0 ≤ n ∧ n ≤ m ∨ m ≤ n ∧ n ≤ 0

theorem within_bool (hn : Within n (decide (n ≠ 0)).toNat) : n = (decide (n ≠ 0)).toNat := by
  by_cases h0 : n = 0
  · simp [h0]
  · simp only [Within, ne_eq, h0, not_false_eq_true, decide_true, Bool.toNat_true,
      Nat.cast_one] at hn ⊢
    omega

theorem within_bmod (hm : 0 < m) (hn : Within n (n.bmod m)) : n = n.bmod m := by
  have h1 := Int.le_bmod (x := n) hm
  have h2 := Int.bmod_lt (x := n) hm
  exact (Int.bmod_eq_of_le (by rw [Within] at hn; omega) (by rw [Within] at hn; omega)).symm

/-- What a number read from the database becomes, type by type. -/
theorem IntType.signed_ofInt (t : IntType) (n : Int) : t.signed (t.ofInt n) =
    match t with
    | .bool => ((decide (n ≠ 0)).toNat : Int)
    | .int | .enum => n.bmod UInt32.size
    | .int64 | .uint64 => n.bmod UInt64.size := by
  cases t with
  | bool => rfl
  | int => exact Int32.toInt_ofInt
  | enum =>
    show (UInt32.toNat (UInt32.ofInt n) : Int).bmod UInt32.size = n.bmod UInt32.size
    simp only [UInt32.ofInt, UInt32.toNat_ofNat', Int.bmod_def, UInt32.size]
    split <;> split <;> omega
  | int64 => exact Int64.toInt_ofInt
  | uint64 =>
    show (UInt64.toNat (UInt64.ofInt n) : Int).bmod UInt64.size = n.bmod UInt64.size
    simp only [UInt64.ofInt, UInt64.toNat_ofNat', Int.bmod_def, UInt64.size]
    split <;> split <;> omega

/-- No other number between zero and the printed one is read as the same value. -/
theorem IntType.eq_signed_of_ofInt {t : IntType} {v : t.Value} (h : t.ofInt n = v)
    (hn : Within n (t.signed v)) : n = t.signed v := by
  subst h
  rw [t.signed_ofInt] at hn ⊢
  cases t with
  | bool => exact within_bool hn
  | int | enum | int64 | uint64 => exact within_bmod (by decide) hn

namespace FieldKind

/-- What the calls of `redis_hash_set` paste: a number through a buffer of three
bytes or more, a text field of two bytes or more as it is. -/
def Pasted : FieldKind → Option Nat → Prop
  | .int _, some size => 3 ≤ size
  | .chars size, none => 2 ≤ size
  | _, _ => False

instance (k : FieldKind) (size : Option Nat) : Decidable (k.Pasted size) :=
  match k, size with
  | .int _, some size => inferInstanceAs (Decidable (3 ≤ size))
  | .int _, none => inferInstanceAs (Decidable False)
  | .chars size, none => inferInstanceAs (Decidable (2 ≤ size))
  | .chars _, some _ => inferInstanceAs (Decidable False)
  | .charPtr, _ => inferInstanceAs (Decidable False)
  | .pointer, _ => inferInstanceAs (Decidable False)

/-- The text `redis_hash_set` is given for a value. -/
def paste (k : FieldKind) (size : Option Nat) (v : k.Value) : Bytes :=
  match size with
  | none => k.print v
  | some size => (k.print v).take (size - 1)

variable {k : FieldKind} {size : Option Nat}

/-- No printed value has a terminator in it. -/
theorem zero_not_mem_print (v : k.Value) : (0 : UInt8) ∉ k.print v := by
  cases k with
  | int t =>
    intro h
    rcases mem_signedDecimal h with h0 | h0
    · exact absurd h0 (by decide)
    · exact absurd h0 (by decide)
  | chars n => exact (Subtype.property v).1
  | charPtr | pointer => exact not_mem_nil

theorem zero_not_mem_paste (v : k.Value) : (0 : UInt8) ∉ k.paste size v := by
  cases size with
  | none => exact zero_not_mem_print v
  | some n => exact fun h => zero_not_mem_print v (mem_of_mem_take h)

/-- A value that is printed as a whole is read back as it was. -/
theorem read_print (hk : k.Pasted size) (v : k.Value) : k.read (k.print v) = v := by
  cases k with
  | int t =>
    obtain ⟨hlo, hhi⟩ := t.signed_range v
    show t.ofInt (atoll (signedDecimal (t.signed v))) = v
    rw [atoll_signedDecimal hlo hhi]
    exact t.ofInt_signed v
  | chars n =>
    obtain ⟨text, h0, hlen⟩ := v
    apply Subtype.ext
    show strlcpy n text = text
    rw [strlcpy, cstr_eq_self h0, take_of_length_le hlen]
  | charPtr | pointer => cases hk

variable {v : k.Value}

/-- A value that comes back was not cut by its buffer. -/
theorem paste_eq_print_of_read (hk : k.Pasted size)
    (h : k.read (k.paste size v) = v) : k.paste size v = k.print v := by
  cases size with
  | none => rfl
  | some n =>
    cases k with
    | int t =>
      by_contra hne
      have hn : 3 ≤ n := hk
      have hlen : n - 1 < (signedDecimal (t.signed v)).length := by
        by_contra hle
        exact hne (take_of_length_le (Nat.le_of_not_lt hle))
      obtain ⟨m, hm, hread⟩ := atoll_take (by omega) hlen
      have hwithin : Within (atoll ((signedDecimal (t.signed v)).take (n - 1))) (t.signed v) := by
        rw [hread, Within]
        split <;> omega
      have heq : atoll ((signedDecimal (t.signed v)).take (n - 1)) = t.signed v :=
        IntType.eq_signed_of_ofInt h hwithin
      rw [hread] at heq
      split at heq <;> omega
    | chars | charPtr | pointer => cases hk

/-- A number is one word of the command. -/
theorem isWord_paste_some {n : Nat} (hk : k.Pasted (some n)) (v : k.Value) :
    IsWord 32 (k.paste (some n) v) := by
  cases k with
  | int t =>
    have hn : 3 ≤ n := hk
    have hne := signedDecimal_ne_nil (t.signed v)
    refine ⟨?_, fun h => ?_⟩
    · show (signedDecimal (t.signed v)).take (n - 1) ≠ []
      intro hnil
      rcases take_eq_nil_iff.mp hnil with h | h
      · omega
      · exact hne h
    · rcases mem_signedDecimal (mem_of_mem_take h) with h | h
      · exact absurd h (by decide)
      · exact absurd h (by decide)
  | chars | charPtr | pointer => cases hk

/-- A text with a blank in it, or an empty one, is no single word and does not come back. -/
theorem read_ne_of_not_isWord (hk : k.Pasted none) (hv : ¬ IsWord 32 (k.print v))
    {w : Bytes} (hw : IsWord 32 w) (h0 : (0 : UInt8) ∉ w) : k.read w ≠ v := by
  cases k with
  | int | charPtr | pointer => cases hk
  | chars n =>
    have hn : 2 ≤ n := hk
    rintro rfl
    have htext : FieldKind.print (.chars n) (FieldKind.read (.chars n) w) = w.take (n - 1) := by
      show strlcpy n w = w.take (n - 1)
      rw [strlcpy, cstr_eq_self h0]
    rw [htext] at hv
    refine hv ⟨fun hnil => ?_, fun h => hw.2 (mem_of_mem_take h)⟩
    rcases take_eq_nil_iff.mp hnil with h | h
    · omega
    · exact hw.1 h

end FieldKind

namespace Redis

/-! ## §2 The database -/

section Lookup

variable {β : Type} {l : List (Bytes × β)} {k : Bytes} {v : β}

/-- The first entry for a key is the one found. -/
theorem exists_lookup_of_mem (h : (k, v) ∈ l) : ∃ w, l.lookup k = some w ∧ (k, w) ∈ l := by
  induction l with
  | nil => cases h
  | cons p l ih =>
    obtain ⟨k', v'⟩ := p
    by_cases hk : k = k'
    · subst hk
      exact ⟨v', lookup_cons_self, mem_cons_self⟩
    · have hmem : (k, v) ∈ l := by
        rcases mem_cons.mp h with h | h
        · exact absurd (congrArg fst h) hk
        · exact h
      obtain ⟨w, hw, hwl⟩ := ih hmem
      exact ⟨w, by rw [lookup_cons, beq_eq_false_iff_ne.mpr hk, hw], mem_cons_of_mem _ hwl⟩

/-- With keys all different, that is the only one. -/
theorem lookup_of_nodup (hnd : (l.map Prod.fst).Nodup) (h : (k, v) ∈ l) : l.lookup k = some v := by
  obtain ⟨w, hw, hwl⟩ := exists_lookup_of_mem h
  obtain rfl : w = v := congrArg snd (inj_on_of_nodup_map hnd hwl h rfl)
  exact hw

theorem lookup_eq_none_of_not_mem (h : k ∉ l.map Prod.fst) : l.lookup k = none := by
  rw [lookup_eq_none_iff]
  intro p hp
  rw [bne_iff_ne]
  rintro rfl
  exact h (mem_map_of_mem hp)

theorem lookup_cons_of_ne {k' : Bytes} (h : k ≠ k') : ((k', v) :: l).lookup k = l.lookup k := by
  rw [lookup_cons, beq_eq_false_iff_ne.mpr h]

end Lookup

variable {db : Db} {key cmd : Bytes} {pairs : List (Bytes × Bytes)}

/-- `HGETALL` of a hash. -/
theorem hgetall_of_lookup {fields : List (Bytes × Bytes)}
    (h : db.lookup key = some (.hash fields)) :
    hgetall db key = some fields := by
  rw [hgetall, h]

variable {indexes : List (Bytes × Bytes)}

/-- Index entries leave other keys alone. -/
theorem lookup_setAll_of_not_mem (db : Db) (h : key ∉ indexes.map Prod.fst) :
    (indexes.foldl (fun db i => set db i.1 i.2) db).lookup key = db.lookup key := by
  induction indexes generalizing db with
  | nil => rfl
  | cons i indexes ih =>
    rw [map_cons, mem_cons, not_or] at h
    rw [foldl_cons, ih _ h.2, set, lookup_cons_of_ne h.1]

/-- An index key holds a string afterwards, whatever it held. -/
theorem lookup_setAll_of_mem (db : Db) (h : key ∈ indexes.map Prod.fst) :
    ∃ text, (indexes.foldl (fun db i => set db i.1 i.2) db).lookup key = some (.str text) := by
  induction indexes generalizing db with
  | nil => cases h
  | cons i indexes ih =>
    by_cases hrest : key ∈ indexes.map fst
    · exact ih _ hrest
    · obtain rfl : key = i.1 := (mem_cons.mp h).resolve_right hrest
      exact ⟨i.2, by rw [foldl_cons, lookup_setAll_of_not_mem _ hrest, set, lookup_cons_self]⟩

theorem lookup_rpush_of_ne {list item : Bytes} (hkey : key ≠ list) :
    (rpush db list item).lookup key = db.lookup key := by
  rw [rpush]
  split
  · rw [lookup_cons_of_ne hkey]
  · rw [lookup_cons_of_ne hkey]
  · rfl

/-- `RPUSH` on a key of another type fails and leaves it. -/
theorem lookup_rpush {list item : Bytes} {v : Value} (h : db.lookup key = some v)
    (hv : ∀ items, v ≠ .list items) : (rpush db list item).lookup key = some v := by
  by_cases hkey : key = list
  · subst hkey
    cases v with
    | str | hash => rw [rpush, h, h]
    | list items => exact absurd rfl (hv items)
  · rw [lookup_rpush_of_ne hkey, h]

/-- When `HMSET` is accepted: a key, pairs, and no value of another type under the key. -/
theorem hmset_eq_some_iff {argv : List Bytes} {write : HashWrite} :
    hmset db argv = some write ↔ ∃ key rest pairs old, argv = lit "HMSET" :: key :: rest ∧
      pairUp rest = some pairs ∧ pairs ≠ [] ∧ hgetall db key = some old ∧
      write = ⟨(key, .hash (pairs.reverse ++ old)) :: db, key, pairs⟩ := by
  constructor
  · intro h
    match argv, h with
    | name :: key :: rest, h =>
      simp only [hmset, Option.bind_eq_bind, Option.bind_eq_some_iff, Option.guard_eq_some',
        exists_const, Option.pure_def, Option.some.injEq] at h
      obtain ⟨rfl, pairs, hpairs, hne, old, hold, rfl⟩ := h
      exact ⟨key, rest, pairs, old, rfl, hpairs, hne, hold, rfl⟩
  · rintro ⟨key, rest, pairs, old, rfl, hpairs, hne, hold, rfl⟩
    simp [hmset, hpairs, hne, hold]

/-! ## §3 The command text -/

/-- What the pairs add to a command. -/
def pairsText (pairs : List (Bytes × Bytes)) : Bytes :=
  (pairs.flatMap fun p => [p.1, p.2]).flatMap (32 :: ·)

/-- The command is the text of all pairs, unless the buffer runs out. -/
theorem appendPairs_some {cmd' : Bytes} (h : appendPairs cmd pairs = some cmd') :
    cmd' = cmd ++ pairsText pairs := by
  induction pairs generalizing cmd with
  | nil =>
    cases h
    exact (append_nil _).symm
  | cons p pairs ih =>
    obtain ⟨-, h⟩ := ite_none_left_eq_some.mp h
    rw [ih h]
    simp [pairsText]

theorem hashSetCommand_some (h : hashSetCommand key pairs = some cmd) :
    cmd = lit "HMSET" ++ 32 :: key ++ pairsText pairs :=
  appendPairs_some (ite_none_left_eq_some.mp h).2

/-- hiredis splits the command at blanks, also inside of values. -/
theorem words_hashSetCommand (h : hashSetCommand key pairs = some cmd)
    (hnames : ∀ p ∈ pairs, IsWord 32 p.1) :
    words 32 cmd = lit "HMSET" :: (words 32 key ++ wordsOfPairs 32 pairs) := by
  have hname : words 32 (lit "HMSET") = [lit "HMSET"] := words_of_isWord (by decide +kernel)
  have hpairs : (pairs.flatMap fun p => [p.1, p.2]).flatMap (words 32) = wordsOfPairs 32 pairs := by
    rw [flatMap_assoc, wordsOfPairs]
    refine flatMap_congr fun p hp => ?_
    simp [words_of_isWord (hnames p hp)]
  rw [hashSetCommand_some h, pairsText, append_assoc, cons_append, words_append_sep,
    words_append_flatMap, hname, hpairs, singleton_append]

/-! ## §4 The tables -/

namespace Op

variable (op : Op)

theorem mem_all : op ∈ all := by
  cases op <;> decide

/-- What a pair of a table is about: its name is a word of its own, its source is
a field that can be pasted so, and a text goes to the field it comes from. -/
def PairOk (w : Written) : Prop :=
  IsWord 32 (lit w.name) ∧ (0 : UInt8) ∉ lit w.name ∧ ∃ f ∈ op.entity.fields,
    op.entity.fields.find? (fun g => g.name == w.source) = some f ∧ f.kind.Pasted w.size ∧
      (w.size = none → f.name = w.name ∧ ¬ op.entity.FromArg f)

instance (w : Written) : Decidable (op.PairOk w) :=
  inferInstanceAs (Decidable (_ ∧ _ ∧ ∃ f ∈ op.entity.fields, _ ∧ _ ∧ (_ → _ ∧ _)))

/-- What a field is about: a pair of its name comes from it, and is read. -/
def FieldOk (f : Field) : Prop :=
  op.entity.fields.find? (fun g => g.name == f.name) = some f ∧
    (¬ op.entity.FromArg f → ∀ w ∈ op.written, lit w.name = lit f.name →
      w.name = f.name ∧ w.source = f.name ∧ f.name ∈ op.entity.readNames)

instance (f : Field) : Decidable (op.FieldOk f) :=
  inferInstanceAs (Decidable (_ ∧ (_ → ∀ w ∈ op.written, _ → _)))

/-- The tables are in order. -/
def TableOk : Prop :=
  op.entity.fields.Nodup ∧ (op.written.map fun w => lit w.name).Nodup ∧ op.written ≠ [] ∧
    (∀ w ∈ op.written, op.PairOk w) ∧ ∀ f ∈ op.entity.fields, op.FieldOk f

instance : Decidable op.TableOk :=
  inferInstanceAs (Decidable (_ ∧ _ ∧ _ ∧ (∀ w ∈ op.written, op.PairOk w) ∧
    ∀ f ∈ op.entity.fields, op.FieldOk f))

/-- Each table of fields is checked once, by evaluation. -/
theorem tablesOk : ∀ op ∈ all, op.TableOk := by
  decide +kernel

theorem fields_nodup : op.entity.fields.Nodup := (tablesOk op op.mem_all).1

/-- No field is written twice. -/
theorem pairs_nodup (rec : op.Rec) : ((op.pairs rec).map Prod.fst).Nodup := by
  rw [pairs, List.map_map]
  exact (tablesOk op op.mem_all).2.1

variable {op : Op} {w : Written} {f : Field}

theorem pairOk (hw : w ∈ op.written) : op.PairOk w :=
  (tablesOk op op.mem_all).2.2.2.1 w hw

theorem fieldOk (hf : f ∈ op.entity.fields) : op.FieldOk f :=
  (tablesOk op op.mem_all).2.2.2.2 f hf

/-- What is written for a field is the field's own value, cut to its buffer. -/
theorem value_eq_paste {fs : List Field} (hfind : fs.find? (fun g => g.name == w.source) = some f)
    (rec : Record fs) : w.value rec = f.kind.paste w.size (rec.at f) := by
  have hprinted : rec.printed w.source = f.kind.print (rec.at f) := by
    rw [Record.printed, hfind]
  cases hsize : w.size with
  | none | some => simp only [Written.value, FieldKind.paste, hsize, hprinted]

/-- A field is read from the pair that was written for it. -/
theorem value_of_name_eq (hf : f ∈ op.entity.fields) (harg : ¬ op.entity.FromArg f)
    (hw : w ∈ op.written) (hname : lit w.name = lit f.name) (rec : op.Rec) :
    f.kind.Pasted w.size ∧ f.name ∈ op.entity.readNames ∧
      w.value rec = f.kind.paste w.size (rec.at f) := by
  obtain ⟨hself, hpairs⟩ := fieldOk hf
  obtain ⟨-, hsource, hread⟩ := hpairs harg w hw hname
  obtain ⟨-, -, g, -, hfind, hpasted, -⟩ := pairOk hw
  rw [hsource, hself] at hfind
  cases hfind
  exact ⟨hpasted, hread, value_eq_paste (hsource ▸ hself) rec⟩

/-! ## §5 The round trip -/

/-- What an operation may touch: the fields it names and its side keys. -/
def own (op : Op) (rec : op.Rec) : List Touch :=
  (op.written.map fun w => .field (op.key rec) (lit w.name)) ++ (op.sideKeys rec).map .key

/-- The entity is read back by its key as it was written, and nothing else was touched. -/
def Done.RoundTrips {op : Op} (r : op.Done) : Prop :=
  op.entity.get r.db (r.record.at op.entity.keyField) = .ok r.record ∧
    ∀ t ∈ r.touched, t ∈ op.own r.record

/-- However formats with directives are read, a call that returns `SSO_OK` round-trips. -/
def Faithful (op : Op) (db : Db) (rec : op.Rec) : Prop :=
  ∀ srv : Server, srv.SplitsAtSpaces → ∀ r : op.Done, op.run srv db rec = .ok r → r.RoundTrips

/-- The hash an operation finds under its key. -/
def stored (op : Op) (db : Db) (rec : op.Rec) : List (Bytes × Bytes) :=
  (hgetall db (op.key rec)).getD []

/-- The field will be read back from its pair, which has to hold it whole, or,
without a pair, from what the hash had (or the zeroed struct). -/
def KeptBy (op : Op) (db : Db) (rec : op.Rec) (f : Field) : Option Written → Prop
  | some w => w.value rec = f.kind.print (rec.at f)
  | none => op.entity.readField (op.stored db rec) (rec.at op.entity.keyField) f = rec.at f

instance (op : Op) (db : Db) (rec : op.Rec) (f : Field) (w : Option Written) :
    Decidable (op.KeptBy db rec f w) := by
  cases w <;> dsimp only [KeptBy] <;> infer_instance

/-- The field will be read back; the argument of the get function always is. -/
def Kept (op : Op) (db : Db) (rec : op.Rec) (f : Field) : Prop :=
  op.entity.FromArg f ∨ op.KeptBy db rec f (op.written.find? fun w => w.name == f.name)

instance (op : Op) (db : Db) (rec : op.Rec) (f : Field) : Decidable (op.Kept db rec f) :=
  inferInstanceAs (Decidable (_ ∨ _))

/-- The key and every value are one word, every field is kept, and no index is
set on the key. -/
@[mk_iff] structure Clean (op : Op) (db : Db) (rec : op.Rec) : Prop where
  key_word : IsWord 32 (op.key rec)
  value_word : ∀ w ∈ op.written, IsWord 32 (w.value rec)
  kept : ∀ f ∈ op.entity.fields, op.Kept db rec f
  key_free : op.key rec ∉ (op.indexes rec).map Prod.fst

instance (op : Op) (db : Db) (rec : op.Rec) : Decidable (op.Clean db rec) :=
  decidable_of_iff' _ (clean_iff ..)

/-- A command text that is sent: it has no percent sign, and if its words are a
command Redis takes, the write is clean. -/
def PlainCommand (op : Op) (db : Db) (rec : op.Rec) : Option Bytes → Prop
  | none => True
  | some cmd => (37 : UInt8) ∉ cmd ∧ ((hmset db (words 32 cmd)).isSome = true → op.Clean db rec)

instance (op : Op) (db : Db) (rec : op.Rec) (cmd : Option Bytes) :
    Decidable (op.PlainCommand db rec cmd) := by
  cases cmd <;> dsimp only [PlainCommand] <;> infer_instance

/-- The writes that round-trip: those that are refused before the command, and
those with a plain command. -/
def Plain (op : Op) (db : Db) (rec : op.Rec) : Prop :=
  (op.uniqueKeys rec).any (keyExists db) = false →
    op.PlainCommand (op.assignId db rec).1 (op.assignId db rec).2
      (hashSetCommand (op.key (op.assignId db rec).2) (op.pairs (op.assignId db rec).2))

instance (op : Op) (db : Db) (rec : op.Rec) : Decidable (op.Plain db rec) :=
  inferInstanceAs (Decidable ((op.uniqueKeys rec).any (keyExists db) = false →
    op.PlainCommand (op.assignId db rec).1 (op.assignId db rec).2
      (hashSetCommand (op.key (op.assignId db rec).2) (op.pairs (op.assignId db rec).2))))

section Write

variable {op : Op} {db : Db} {rec : op.Rec}

/-- The index entries keep the hash, unless one of them has its key. -/
theorem lookup_bookkeep {fields : List (Bytes × Bytes)}
    (h : db.lookup key = some (.hash fields)) (hkey : key ∉ (op.indexes rec).map Prod.fst) :
    (op.bookkeep db rec).lookup key = some (.hash fields) := by
  have hset := lookup_setAll_of_not_mem db hkey
  rw [h] at hset
  rw [bookkeep]
  split
  · exact hset
  · exact lookup_rpush hset fun items => nofun

/-- In that case the hash is lost. -/
theorem hgetall_bookkeep_of_mem (db : Db) (hkey : key ∈ (op.indexes rec).map Prod.fst) :
    hgetall (op.bookkeep db rec) key = none := by
  obtain ⟨text, hset⟩ := lookup_setAll_of_mem db hkey
  have hlookup : (op.bookkeep db rec).lookup key = some (.str text) := by
    rw [bookkeep]
    split
    · exact hset
    · exact lookup_rpush hset fun items => nofun
  rw [hgetall, hlookup]

variable {old ps : List (Bytes × Bytes)} {r : op.Done} {srv : Server}

/-- Behind the pairs of a write a field has its pair, or what the hash had. -/
theorem readField_written (hf : f ∈ op.entity.fields) (harg : ¬ op.entity.FromArg f)
    (hw : w ∈ op.written) (hname : lit w.name = lit f.name)
    {text : Bytes} (hps : ps.lookup (lit f.name) = some text) :
    op.entity.readField (ps ++ old) (rec.at op.entity.keyField) f = f.kind.read text := by
  obtain ⟨-, hread, -⟩ := value_of_name_eq hf harg hw hname rec
  rw [Entity.readField, dif_neg harg, if_pos hread, lookup_append, hps]
  rfl

/-- One field comes back exactly if it is kept. -/
theorem readField_eq_iff_kept (hf : f ∈ op.entity.fields) :
    op.entity.readField ((op.pairs rec).reverse ++ op.stored db rec)
      (rec.at op.entity.keyField) f = rec.at f ↔ op.Kept db rec f := by
  by_cases harg : op.entity.FromArg f
  · refine iff_of_true ?_ (Or.inl harg)
    obtain ⟨hpreset, rfl⟩ := harg
    rw [Entity.readField, dif_pos ⟨hpreset, rfl⟩]
  · rw [Kept, or_iff_right harg]
    cases hfind : op.written.find? (fun w => w.name == f.name) with
    | some w =>
      have hw := mem_of_find?_eq_some hfind
      have hname : w.name = f.name := by simpa using find?_some hfind
      obtain ⟨hpasted, -, hvalue⟩ := value_of_name_eq hf harg hw (congrArg lit hname) rec
      have hlookup : (op.pairs rec).reverse.lookup (lit f.name) = some (w.value rec) := by
        refine lookup_of_nodup ?_ (mem_reverse.mpr (mem_map.mpr ⟨w, hw, by rw [hname]⟩))
        rw [map_reverse, nodup_reverse]
        exact op.pairs_nodup rec
      rw [KeptBy, readField_written hf harg hw (congrArg lit hname) hlookup, hvalue]
      constructor
      · exact FieldKind.paste_eq_print_of_read hpasted
      · intro h
        rw [h, FieldKind.read_print hpasted]
    | none =>
      have hlookup : (op.pairs rec).reverse.lookup (lit f.name) = none := by
        refine lookup_eq_none_of_not_mem fun hmem => ?_
        rw [List.map_reverse, List.mem_reverse, pairs, List.map_map] at hmem
        obtain ⟨w, hw, hname⟩ := List.mem_map.mp hmem
        have := find?_eq_none.mp hfind w hw
        exact this (beq_iff_eq.mpr ((fieldOk hf).2 harg w hw hname).1)
      rw [KeptBy, Entity.readField, Entity.readField, lookup_append, hlookup, none_or]

/-- The record comes back exactly if each field does. -/
theorem get_eq_ok_iff {db' : Db} {hash : List (Bytes × Bytes)}
    (hdb : hgetall db' (op.key rec) = some hash) (hne : hash ≠ []) :
    op.entity.get db' (rec.at op.entity.keyField) = .ok rec ↔ ∀ f ∈ op.entity.fields,
      op.entity.readField hash (rec.at op.entity.keyField) f = rec.at f := by
  rw [key] at hdb
  rw [Entity.get, hdb, ← Record.build_eq_iff op.fields_nodup]
  simp only [hne, and_false, if_false, Except.ok.injEq]

/-- No value ends the command text early. -/
theorem zero_not_mem_value (hw : w ∈ op.written) : (0 : UInt8) ∉ w.value rec := by
  obtain ⟨-, -, f, -, hfind, -⟩ := pairOk hw
  rw [value_eq_paste hfind]
  exact FieldKind.zero_not_mem_paste _

theorem isWord_name {p : Bytes × Bytes} (hp : p ∈ op.pairs rec) : IsWord 32 p.1 := by
  obtain ⟨w, hw, rfl⟩ := mem_map.mp hp
  exact (pairOk hw).1

theorem zero_not_mem_wordsOfPairs {w : Bytes} (hw : w ∈ wordsOfPairs 32 (op.pairs rec)) :
    (0 : UInt8) ∉ w := by
  obtain ⟨p, hp, hmem⟩ := mem_flatMap.mp hw
  obtain ⟨x, hx, rfl⟩ := mem_map.mp hp
  rcases mem_cons.mp hmem with rfl | hmem
  · exact (pairOk hx).2.1
  · exact fun h0 => zero_not_mem_value hx (subset_of_mem_words hmem h0)

theorem isWord_of_mem_wordsOfPairs {w : Bytes} (hw : w ∈ wordsOfPairs 32 (op.pairs rec)) :
    IsWord 32 w := by
  obtain ⟨p, hp, hmem⟩ := mem_flatMap.mp hw
  rcases mem_cons.mp hmem with rfl | hmem
  · exact isWord_name hp
  · exact isWord_of_mem_words hmem

/-- If the struct is read back from the words of the pairs, every value was one word:
the first that was not would be read from a word, and is none. -/
theorem value_word_of_read (hps : pairUp (wordsOfPairs 32 (op.pairs rec)) = some ps)
    (hread : ∀ f ∈ op.entity.fields,
      op.entity.readField (ps.reverse ++ old) (rec.at op.entity.keyField) f = rec.at f) :
    ∀ w ∈ op.written, IsWord 32 (w.value rec) := by
  by_contra hnot
  have hpairs : ¬ ∀ p ∈ op.pairs rec, IsWord 32 p.2 := fun h =>
    hnot fun w hw => h (lit w.name, w.value rec) (mem_map_of_mem hw)
  obtain ⟨p, hp, hword, text, htext⟩ := exists_paired_of_not_isWord hps hpairs
  obtain ⟨w, hw, rfl⟩ := mem_map.mp hp
  obtain ⟨-, -, f, hf, hfind, hpasted, hself⟩ := pairOk hw
  rw [value_eq_paste hfind] at hword
  cases hsize : w.size with
  | some n =>
    rw [hsize] at hword hpasted
    exact hword (FieldKind.isWord_paste_some hpasted _)
  | none =>
    rw [hsize] at hword hpasted
    obtain ⟨hname, harg⟩ := hself hsize
    obtain ⟨text', hlookup, hmem⟩ := exists_lookup_of_mem (mem_reverse.mpr htext)
    have htext' := (mem_of_mem_pairUp hps (mem_reverse.mp hmem)).2
    rw [← hname] at hlookup
    have hback := hread f hf
    rw [readField_written hf harg hw (congrArg lit hname.symm) hlookup] at hback
    exact FieldKind.read_ne_of_not_isWord hpasted hword (isWord_of_mem_wordsOfPairs htext')
      (zero_not_mem_wordsOfPairs htext') hback

/-- A hash write of the words of the command round-trips exactly if it is clean. -/
theorem roundTrips_finish_iff {write : HashWrite}
    (hcmd : hashSetCommand (op.key rec) (op.pairs rec) = some cmd)
    (hwrite : hmset db (words 32 cmd) = some write) :
    (op.finish rec write).RoundTrips ↔ op.Clean db rec := by
  obtain ⟨key, rest, ps, old, hwords, hps, hne, hold, rfl⟩ := hmset_eq_some_iff.mp hwrite
  rw [words_hashSetCommand hcmd fun p hp => isWord_name hp, cons.injEq] at hwords
  replace hwords := hwords.2
  -- once the key is one word, the rest are the words of the pairs
  have hrest : IsWord 32 (op.key rec) →
      key = op.key rec ∧ rest = wordsOfPairs 32 (op.pairs rec) := by
    intro hkey
    rw [words_of_isWord hkey, singleton_append, cons.injEq] at hwords
    exact ⟨hwords.1.symm, hwords.2.symm⟩
  have hpairs : (∀ w ∈ op.written, IsWord 32 (w.value rec)) →
      rest = wordsOfPairs 32 (op.pairs rec) → ps = op.pairs rec := by
    rintro hvalue rfl
    have hall : ∀ p ∈ op.pairs rec, IsWord 32 p.2 := forall_mem_map.mpr hvalue
    rw [pairUp_wordsOfPairs hall] at hps
    exact (some.inj hps).symm
  have hnil : ps.reverse ++ old ≠ [] := by simp [hne]
  have hdb : op.key rec ∉ (op.indexes rec).map fst → key = op.key rec →
      hgetall (op.bookkeep ((key, .hash (ps.reverse ++ old)) :: db) rec) (op.key rec) =
        some (ps.reverse ++ old) := by
    rintro hfree rfl
    exact hgetall_of_lookup (lookup_bookkeep lookup_cons_self hfree)
  constructor
  · rintro ⟨hget, htouched⟩
    obtain ⟨p, hp⟩ := exists_mem_of_ne_nil ps hne
    have hkey : key = op.key rec := by
      have htouch := htouched (.field key p.1)
        (mem_append_left _ (mem_map.mpr ⟨p, hp, rfl⟩))
      rcases mem_append.mp htouch with h | h
      · obtain ⟨w, -, hw⟩ := mem_map.mp h
        exact (Touch.field.inj hw).1.symm
      · obtain ⟨k, -, hk⟩ := mem_map.mp h
        cases hk
    have hword : IsWord 32 (op.key rec) := by
      have hmem : key ∈ words 32 (op.key rec) ++ wordsOfPairs 32 (op.pairs rec) :=
        hwords ▸ mem_cons_self
      rcases mem_append.mp hmem with h | h
      · exact hkey ▸ isWord_of_mem_words h
      · exact hkey ▸ isWord_of_mem_wordsOfPairs h
    have hfree : op.key rec ∉ (op.indexes rec).map fst := by
      intro hmem
      have hnone := hgetall_bookkeep_of_mem ((key, .hash (ps.reverse ++ old)) :: db) hmem
      rw [Entity.get] at hget
      split at hget
      · cases hget
      · next hash hsome =>
        cases hnone.symm.trans hsome
    have hread := (get_eq_ok_iff (hdb hfree hkey) hnil).mp hget
    obtain ⟨-, hrest⟩ := hrest hword
    have hvalue := value_word_of_read (hrest ▸ hps) hread
    refine ⟨hword, hvalue, fun f hf => readField_eq_iff_kept hf |>.mp ?_, hfree⟩
    rw [stored, ← hkey, hold, ← hpairs hvalue hrest]
    exact hread f hf
  · intro hclean
    obtain ⟨hkey, hrest⟩ := hrest hclean.key_word
    obtain rfl := hpairs hclean.value_word hrest
    refine ⟨(get_eq_ok_iff (hdb hclean.key_free hkey) hnil).mpr fun f hf => ?_, ?_⟩
    · have hread := (readField_eq_iff_kept hf).mpr (hclean.kept f hf)
      rwa [stored, ← hkey, hold] at hread
    · intro t ht
      refine mem_append.mpr ((mem_append.mp ht).imp_left fun h => ?_)
      obtain ⟨p, hp, rfl⟩ := mem_map.mp h
      obtain ⟨w, hw, rfl⟩ := mem_map.mp hp
      exact mem_map.mpr ⟨w, hw, by rw [hkey]; rfl⟩

/-- When a create or update succeeds, step by step as the C function checks it. -/
theorem run_eq_ok_iff :
    op.run srv db rec = .ok r ↔ (op.uniqueKeys rec).any (keyExists db) = false ∧
      (op.expires && !srv.expire) = false ∧ ∃ cmd argv write,
        hashSetCommand (op.key (op.assignId db rec).2) (op.pairs (op.assignId db rec).2) =
          some cmd ∧ srv.format cmd = some argv ∧ hmset (op.assignId db rec).1 argv = some write ∧
        r = op.finish (op.assignId db rec).2 write := by
  have hset : ∀ write, hashSet srv (op.assignId db rec).1 (op.key (op.assignId db rec).2)
        (op.pairs (op.assignId db rec).2) = some write ↔ ∃ cmd argv,
      hashSetCommand (op.key (op.assignId db rec).2) (op.pairs (op.assignId db rec).2) =
        some cmd ∧ srv.format cmd = some argv ∧ hmset (op.assignId db rec).1 argv = some write := by
    intro write
    simp [hashSet, bind_eq_some_iff]
  by_cases hunique : (op.uniqueKeys rec).any (keyExists db) = true
  · simp [run, hunique]
  · rw [Bool.not_eq_true] at hunique
    cases hhash : hashSet srv (op.assignId db rec).1 (op.key (op.assignId db rec).2)
        (op.pairs (op.assignId db rec).2) with
    | none =>
      simp only [run, hunique, hhash, Bool.false_eq_true, if_false]
      refine iff_of_false nofun ?_
      rintro ⟨-, -, cmd, argv, write, h1, h2, h3, -⟩
      cases hhash.symm.trans ((hset write).mpr ⟨cmd, argv, h1, h2, h3⟩)
    | some write =>
      obtain ⟨cmd, argv, h1, h2, h3⟩ := (hset write).mp hhash
      simp only [run, hunique, hhash, Bool.false_eq_true, if_false]
      cases hexp : (op.expires && !srv.expire) with
      | true => simp
      | false =>
        constructor
        · intro hr
          exact ⟨trivial, rfl, cmd, argv, write, h1, h2, h3, (Except.ok.inj hr).symm⟩
        · rintro ⟨-, -, cmd', argv', write', h1', h2', h3', rfl⟩
          cases hhash.symm.trans ((hset write').mpr ⟨cmd', argv', h1', h2', h3'⟩)
          rfl

end Write

/-- hiredis, if it took every format for plain text. -/
def plainServer : Server where
  format cmd := some (words 32 cmd)
  expire := true

/-- hiredis, if it read a format with a directive as a write somewhere else: what it
does with the arguments that are not there is undefined. -/
def strayServer (key : Bytes) : Server where
  format cmd :=
    some (if (37 : UInt8) ∈ cmd then [lit "HMSET", key, lit "f", lit "v"] else words 32 cmd)
  expire := true

theorem plainServer_splits : plainServer.SplitsAtSpaces := fun _ _ => rfl

theorem strayServer_splits (key : Bytes) : (strayServer key).SplitsAtSpaces := by
  intro cmd hcmd
  rw [strayServer]
  simp only [hcmd, if_false]

/-- A finite database has a key that is free. -/
theorem exists_free_key (db : Db) (key : Bytes) : ∃ k, k ≠ key ∧ hgetall db k = some [] := by
  obtain ⟨k, hk⟩ := Infinite.exists_notMem_finset (insert key (db.map fst).toFinset)
  rw [Finset.mem_insert, List.mem_toFinset, not_or] at hk
  exact ⟨k, hk.1, by rw [hgetall, lookup_eq_none_of_not_mem hk.2]⟩

variable {rec : op.Rec}

/-- A command with a percent sign may write anywhere. -/
theorem percent_not_mem (h : op.Faithful db rec)
    (hunique : (op.uniqueKeys rec).any (keyExists db) = false)
    (hcmd : hashSetCommand (op.key (op.assignId db rec).2) (op.pairs (op.assignId db rec).2) =
      some cmd) : (37 : UInt8) ∉ cmd := by
  intro hmem
  obtain ⟨k, hk, hfree⟩ := exists_free_key (op.assignId db rec).1 (op.key (op.assignId db rec).2)
  have hwrite := hmset_eq_some_iff.mpr ⟨k, [lit "f", lit "v"], [(lit "f", lit "v")], [], rfl, rfl,
    cons_ne_nil _ _, hfree, rfl⟩
  have hformat : (strayServer k).format cmd = some [lit "HMSET", k, lit "f", lit "v"] := by
    rw [strayServer]
    simp only [hmem, if_true]
  have hrun := run_eq_ok_iff.mpr ⟨hunique, Bool.and_false _, cmd, _, _, hcmd, hformat, hwrite, rfl⟩
  have htouch := (h (strayServer k) (strayServer_splits k) _ hrun).2 (.field k (lit "f"))
    (mem_append_left _ mem_cons_self)
  rcases mem_append.mp htouch with h | h
  · obtain ⟨w, -, hw⟩ := mem_map.mp h
    exact hk (Touch.field.inj hw).1.symm
  · obtain ⟨s, -, hs⟩ := mem_map.mp h
    cases hs

/-- **Which writes round-trip**, for every operation, database and struct. -/
theorem redis_roundTrip_iff (op : Op) (db : Db) (rec : op.Rec) :
    op.Faithful db rec ↔ op.Plain db rec := by
  constructor
  · intro h hunique
    cases hcmd : hashSetCommand (op.key (op.assignId db rec).2)
        (op.pairs (op.assignId db rec).2) with
    | none => trivial
    | some cmd =>
      refine ⟨percent_not_mem h hunique hcmd, fun hsome => ?_⟩
      obtain ⟨write, hwrite⟩ := isSome_iff_exists.mp hsome
      have hrun := run_eq_ok_iff.mpr ⟨hunique, Bool.and_false _, cmd, _, write, hcmd,
        (rfl : plainServer.format cmd = _), hwrite, rfl⟩
      exact (roundTrips_finish_iff hcmd hwrite).mp (h plainServer plainServer_splits _ hrun)
  · intro h srv hsrv r hrun
    obtain ⟨hunique, -, cmd, argv, write, hcmd, hargv, hwrite, rfl⟩ := run_eq_ok_iff.mp hrun
    have hplain := h hunique
    rw [hcmd] at hplain
    obtain ⟨hpercent, hclean⟩ := hplain
    rw [hsrv cmd hpercent] at hargv
    cases hargv
    exact (roundTrips_finish_iff hcmd hwrite).mpr
      (hclean (isSome_iff_exists.mpr ⟨write, hwrite⟩))

/-- The struct with some fields read from texts, and the others zero. -/
def structOf (op : Op) (texts : List (String × String)) : op.Rec :=
  Record.build op.entity.fields fun f =>
    match texts.lookup f.name with
    | some text => f.kind.read (lit text)
    | none => f.kind.zero

/-- A role with a one-word description is created and read back. -/
theorem oneWordRole_roundTrips :
    ((roleCreate.run plainServer [] (roleCreate.structOf
      [("name", "admin"), ("description", "everything"), ("status", "1")])).toOption.isSome) ∧
    roleCreate.Faithful [] (roleCreate.structOf
      [("name", "admin"), ("description", "everything"), ("status", "1")]) :=
  ⟨by decide +kernel, (redis_roundTrip_iff _ _ _).mpr (by decide +kernel)⟩

/-- A user without phone, email, attributes and MFA secret. -/
def sparseUser : userCreate.Rec :=
  userCreate.structOf
    [("username", "alice"), ("password_hash", "h"), ("display_name", "Alice"), ("status", "1")]

/-- What is read back after a write to an empty database. -/
def rereadOn (srv : Server) (op : Op) (rec : op.Rec) : Option (op.Rec × op.Rec) :=
  (op.run srv [] rec).toOption.bind fun r =>
    (op.entity.get r.db (r.record.at op.entity.keyField)).toOption.map fun read =>
      (r.record, read)

/-- A faithful record is read back as it was, on a server that splits at blanks. -/
theorem Faithful.rereadOn_eq (h : op.Faithful [] rec)
    {p : op.Rec × op.Rec} (hp : rereadOn plainServer op rec = some p) : p.1 = p.2 := by
  rw [rereadOn] at hp
  cases hrun : op.run plainServer [] rec with
  | error e =>
    rw [hrun] at hp
    cases hp
  | ok r =>
    have hget := (h plainServer plainServer_splits r hrun).1
    rw [hrun, Except.toOption, bind_some, hget] at hp
    cases hp
    rfl

/-- The four empty values of a sparse user leave an even number of words: the call
answers `SSO_OK`, and the phone is read back as `password_hash`. -/
theorem emptyFields_shift :
    (rereadOn plainServer userCreate sparseUser).map
      (fun p => (p.1.printed "phone", p.2.printed "phone")) = some ([], lit "password_hash") ∧
    ¬ userCreate.Faithful [] sparseUser := by
  have hseen : (rereadOn plainServer userCreate sparseUser).map
      (fun p => (p.1.printed "phone", p.2.printed "phone")) = some ([], lit "password_hash") := by
    decide +kernel
  refine ⟨hseen, fun h => ?_⟩
  obtain ⟨p, hp, hphone⟩ := map_eq_some_iff.mp hseen
  rw [h.rereadOn_eq hp] at hphone
  obtain ⟨h1, h2⟩ := mk.inj hphone
  exact absurd (h1.symm.trans h2) (by decide +kernel)

end Op

end Redis

end SsoSystem
