/-
SsoSystem.Raft.CodecTheorems — what a command or message is after it was
written and read back.

`raftApplyDispatch_proxyDocument` computes the call the dispatcher makes for
any call of a proxy: the operation and its texts come back, an integer comes
back as its low 32 bits, a field the generator does not list comes back zeroed
and a struct it has no list for as NULL.
-/
import Mathlib.Data.List.Nodup
import SsoSystem.Raft.Codec

namespace SsoSystem.Raft

open CMem Decimal List Option Json

/-! ## §1 Integers -/

theorem integerLiteral_signedDecimal {n : Int} (hlo : -2 ^ 63 ≤ n) (hhi : n < 2 ^ 63) :
    integerLiteral (signedDecimal n) = some n := by
  have hdigits := all_eq_true.mpr (isDigit_of_mem_decimal n.natAbs)
  have hne := decimal_ne_nil n.natAbs
  rw [signedDecimal]
  split
  · next hneg =>
    rw [integerLiteral, if_pos ⟨hne, hdigits, by rw [value_decimal]; omega⟩, value_decimal]
    congr 1
    omega
  · next hneg =>
    -- the text starts with a digit, so the branch for a minus sign is not taken
    have hminus : ∀ ds, decimal n.natAbs ≠ 45 :: ds := by
      intro ds h
      have hd := isDigit_of_mem_decimal n.natAbs 45 (h ▸ mem_cons_self)
      exact absurd hd (by decide)
    rw [integerLiteral, if_pos ⟨hne, hdigits, by rw [value_decimal]; omega⟩, value_decimal]
    · congr 1
      omega
    · exact hminus

theorem getInt_addInt (n : Int) : getInt (some (addInt n)) = n.bmod (2 ^ 32) := by
  have hlo := Int.le_bmod (x := n) (m := 2 ^ 64) (by decide)
  have hhi := Int.bmod_lt (x := n) (m := 2 ^ 64) (by decide)
  rw [addInt, getInt, integerLiteral_signedDecimal (by omega) (by omega), getD_some]
  exact Int.bmod_bmod_of_dvd (by decide)

/-- The values of an integer type that are read back: a 64-bit value has to be
the sign extension of its low half. -/
def IntNarrow : (t : IntType) → t.Value → Prop
  | .bool, _ => True
  | .int, _ => True
  | .enum, _ => True
  | .int64, v => -2 ^ 31 ≤ Int64.toInt v ∧ Int64.toInt v < 2 ^ 31
  | .uint64, v => UInt64.toNat v < 2 ^ 31 ∨ 2 ^ 64 - 2 ^ 31 ≤ UInt64.toNat v

/-- The integer as the dispatcher has it. -/
def rereadInt (t : IntType) (v : t.Value) : t.Value := t.ofInt ((t.toInt v).bmod (2 ^ 32))

theorem reread_int32 (v : Int32) : Int32.ofInt (v.toInt.bmod (2 ^ 32)) = v := by
  apply Int32.toInt_inj.mp
  have hlo := v.le_toInt
  have hhi := v.toInt_lt
  rw [Int32.toInt_ofInt, show Int32.size = 2 ^ 32 from rfl, Int.bmod_bmod]
  exact Int.bmod_eq_of_le (by omega) (by omega)

theorem reread_int64_iff (v : Int64) : Int64.ofInt (v.toInt.bmod (2 ^ 32)) = v ↔
    -2 ^ 31 ≤ v.toInt ∧ v.toInt < 2 ^ 31 := by
  have hlo := Int.le_bmod (x := v.toInt) (m := 2 ^ 32) (by decide)
  have hhi := Int.bmod_lt (x := v.toInt) (m := 2 ^ 32) (by decide)
  rw [← Int64.toInt_inj, Int64.toInt_ofInt_of_le (by omega) (by omega)]
  constructor
  · intro h
    omega
  · rintro ⟨h1, h2⟩
    exact Int.bmod_eq_of_le (by omega) (by omega)

theorem reread_uint32 (v : UInt32) : UInt32.ofInt ((Int.ofNat v.toNat).bmod (2 ^ 32)) = v := by
  apply UInt32.toNat_inj.mp
  have hv := v.toNat_lt
  rw [UInt32.ofInt, UInt32.toNat_ofNat', Int.bmod_def]
  simp only [Int.ofNat_eq_natCast]
  split <;> omega

theorem reread_uint64_iff (v : UInt64) : UInt64.ofInt ((Int.ofNat v.toNat).bmod (2 ^ 32)) = v ↔
    v.toNat < 2 ^ 31 ∨ 2 ^ 64 - 2 ^ 31 ≤ v.toNat := by
  rw [← UInt64.toNat_inj]
  have hv := v.toNat_lt
  rw [UInt64.ofInt, UInt64.toNat_ofNat', Int.bmod_def]
  simp only [Int.ofNat_eq_natCast]
  split <;> omega

theorem rereadInt_eq_iff (t : IntType) (v : t.Value) : rereadInt t v = v ↔ IntNarrow t v := by
  cases t with
  | bool => exact iff_of_true (by cases v <;> rfl) trivial
  | int => exact iff_of_true (reread_int32 v) trivial
  | enum => exact iff_of_true (reread_uint32 v) trivial
  | int64 => exact reread_int64_iff v
  | uint64 => exact reread_uint64_iff v

/-! ## §2 Members of an object -/

variable {before rest : List (Bytes × Json)} {name : String} {m : Bytes × Json}
  {key : Bytes} {ms : List (Bytes × Json)} {k : FieldKind}

theorem objGet_append (h : ∀ m ∈ before, m.1 ≠ key) :
    Json.objGet (some (.obj (before ++ ms))) key = Json.objGet (some (.obj ms)) key := by
  have hnone : before.find? (fun m => m.1 == key) = none := by
    simpa [find?_eq_none] using h
  rw [objGet, objGet, find?_append, hnone, none_or]

theorem objGet_cons (key : Bytes) (v : Json) (ms : List (Bytes × Json)) :
    Json.objGet (some (.obj ((key, v) :: ms))) key = some v := by
  rw [objGet, find?_cons_of_pos (by simp), map_some]

theorem objGet_none (h : ∀ m ∈ ms, m.1 ≠ key) : Json.objGet (some (.obj ms)) key = none := by
  have hnone : ms.find? (fun m => m.1 == key) = none := by
    simpa [find?_eq_none] using h
  rw [objGet, hnone, map_none]

/-! ## §3 Structs -/

/-- A field as the dispatcher has it. -/
def rereadField : (k : FieldKind) → k.Value → k.Value
  | .int t, v => rereadInt t v
  | .chars _, v => v
  | .charPtr, _ => none
  | .pointer, _ => (0 : UInt64)

def rereadRecord (listed : List String) : (fs : List Field) → Record fs → Record fs
  | [], _ => ()
  | f :: fs, v =>
    (if f.name ∈ listed then rereadField f.kind v.1 else f.kind.zero, rereadRecord listed fs v.2)

theorem encodeRecord_cons (listed : List String) (f : Field) (fs : List Field) (x : f.kind.Value)
    (v : Record fs) : encodeRecord listed (f :: fs) (x, v) =
      (if f.name ∈ listed then encodeField f.name f.kind x else []) ++ encodeRecord listed fs v :=
  rfl

/-- No text field of the struct is an array of no bytes. -/
def HasRoom : FieldKind → Prop
  | .chars size => 0 < size
  | _ => True

theorem key_of_mem_encodeField {v : k.Value} (h : m ∈ encodeField name k v) : m.1 = lit name := by
  cases k with
  | int | chars => simp only [encodeField, mem_singleton] at h; rw [h]
  | charPtr | pointer => simp [encodeField] at h

theorem decodeField_encodeField (hk : HasRoom k) (v : k.Value)
    (hbefore : ∀ m ∈ before, m.1 ≠ lit name) :
    decodeField (.obj (before ++ (encodeField name k v ++ rest))) name k = rereadField k v := by
  cases k with
  | int t =>
    rw [decodeField, objGet_append hbefore, encodeField, singleton_append, objGet_cons,
      getInt_addInt]
    rfl
  | chars size =>
    rw [decodeField, objGet_append hbefore, encodeField, singleton_append, objGet_cons]
    rw [getStr, getD_some, cstr_eq_self v.property.1]
    exact copy_val hk v
  | charPtr => rfl
  | pointer => rfl

/-- Reading a struct back: induction on the fields, with the members written so
far in front. -/
theorem decodeRecord_encodeRecord (listed : List String) (fs : List Field)
    (hnames : (fs.map fun f => lit f.name).Nodup)
    (hroom : ∀ f ∈ fs, HasRoom f.kind) (v : Record fs) (before : List (Bytes × Json))
    (hbefore : ∀ m ∈ before, m.1 ∉ fs.map fun f => lit f.name) :
    decodeRecord (.obj (before ++ encodeRecord listed fs v)) listed fs =
      rereadRecord listed fs v := by
  induction fs generalizing before with
  | nil => rfl
  | cons f fs ih =>
    obtain ⟨x, v⟩ := v
    rw [map_cons, nodup_cons] at hnames
    have hhead : ∀ m ∈ before, m.1 ≠ lit f.name := fun m hm h =>
      hbefore m hm (h ▸ mem_cons_self)
    refine Prod.ext ?_ ?_
    · show (if f.name ∈ listed then _ else _) = if f.name ∈ listed then _ else _
      split
      · next hc =>
        rw [encodeRecord_cons, if_pos hc]
        exact decodeField_encodeField (hroom f mem_cons_self) x hhead
      · rfl
    · show decodeRecord _ listed fs = rereadRecord listed fs v
      rw [encodeRecord_cons, ← append_assoc]
      refine ih hnames.2 (fun g hg => hroom g (mem_cons_of_mem _ hg)) v _ ?_
      intro m hm hin
      rcases mem_append.mp hm with hm | hm
      · exact hbefore m hm (mem_cons_of_mem _ hin)
      · split at hm
        · exact hnames.1 (key_of_mem_encodeField hm ▸ hin)
        · simp at hm

variable (s : StructType)

theorem nodup_fieldNames : (s.fields.map fun f => lit f.name).Nodup := by
  cases s <;> decide +kernel

theorem hasRoom_fields : ∀ f ∈ s.fields, HasRoom f.kind := by
  cases s <;> simp [StructType.fields, HasRoom]

/-- What survives of a field that is in the generator's list. -/
def FieldSurvives : (k : FieldKind) → k.Value → Prop
  | .int t, v => IntNarrow t v
  | .chars _, _ => True
  | .charPtr, v => v = none
  | .pointer, v => v = (0 : UInt64)

/-- What survives of a struct: of a field that is not in the list, its zero. -/
def RecordSurvives (listed : List String) : (fs : List Field) → Record fs → Prop
  | [], _ => True
  | f :: fs, v => (if f.name ∈ listed then FieldSurvives f.kind v.1 else v.1 = f.kind.zero) ∧
      RecordSurvives listed fs v.2

theorem rereadField_eq_iff (k : FieldKind) (v : k.Value) :
    rereadField k v = v ↔ FieldSurvives k v := by
  cases k with
  | int t => exact rereadInt_eq_iff t v
  | chars size => exact iff_of_true rfl trivial
  | charPtr | pointer => exact eq_comm

theorem rereadRecord_eq_iff (listed : List String) (fs : List Field) (v : Record fs) :
    rereadRecord listed fs v = v ↔ RecordSurvives listed fs v := by
  induction fs with
  | nil => exact iff_of_true rfl trivial
  | cons f fs ih =>
    obtain ⟨x, v⟩ := v
    have hfield : (if f.name ∈ listed then rereadField f.kind x else f.kind.zero) = x ↔
        if f.name ∈ listed then FieldSurvives f.kind x else x = f.kind.zero := by
      split
      · exact rereadField_eq_iff f.kind x
      · exact eq_comm
    show (_, _) = (x, v) ↔ _
    rw [Prod.mk.injEq, hfield, ih v]
    rfl

/-! ## §4 Commands -/

/-- A struct argument as the dispatcher has it. -/
def rereadStruct (v : Option (Record s.fields)) : Option (Record s.fields) :=
  (listedFields s).bind fun listed => v.map (rereadRecord listed s.fields)

/-- An argument as the dispatcher has it. -/
def ArgType.reread : (t : ArgType) → t.Value → t.Value
  | .charPtr, v => v
  | .int t, v => rereadInt t v
  | .struct s, v => rereadStruct s v

def rereadArgs : (ps : List Param) → Args ps → Args ps
  | [], _ => ()
  | p :: ps, v => (p.type.reread v.1, rereadArgs ps v.2)

def Command.reread (c : Command) : Command := ⟨c.op, rereadArgs c.op.params c.args⟩

theorem encodeArgs_cons (p : Param) (ps : List Param) (x : p.type.Value) (v : Args ps) :
    encodeArgs (p :: ps) (x, v) = encodeArg p.name p.type x ++ encodeArgs ps v :=
  rfl

theorem key_of_mem_encodeStruct {s : StructType} {v : Option (Record s.fields)}
    (h : m ∈ encodeStruct name s v) : m.1 = lit name := by
  rw [encodeStruct, mem_toList] at h
  obtain ⟨listed, -, h⟩ := bind_eq_some_iff.mp h
  obtain ⟨v, -, rfl⟩ := map_eq_some_iff.mp h
  rfl

theorem key_of_mem_encodeArg {t : ArgType} {v : t.Value} (h : m ∈ encodeArg name t v) :
    m.1 = lit name := by
  cases t with
  | charPtr =>
    cases v with
    | none => simp [encodeArg] at h
    | some v => simp only [encodeArg, mem_singleton] at h; rw [h]
  | int t => simp only [encodeArg, mem_singleton] at h; rw [h]
  | struct s => exact key_of_mem_encodeStruct h

theorem key_of_mem_encodeArgs {ps : List Param} {v : Args ps} (h : m ∈ encodeArgs ps v) :
    m.1 ∈ ps.map fun p => lit p.name := by
  induction ps with
  | nil => simp [encodeArgs] at h
  | cons p ps ih =>
    rcases mem_append.mp h with h | h
    · rw [key_of_mem_encodeArg h]
      exact mem_cons_self
    · exact mem_cons_of_mem _ (ih h)

theorem decodeStruct_encodeStruct (v : Option (Record s.fields))
    (hbefore : ∀ m ∈ before, m.1 ≠ lit name) (hrest : ∀ m ∈ rest, m.1 ≠ lit name) :
    decodeStruct (.obj (before ++ (encodeStruct name s v ++ rest))) name s = rereadStruct s v := by
  rw [decodeStruct, rereadStruct, encodeStruct]
  cases listedFields s with
  | none => rfl
  | some listed =>
    rw [bind_some, bind_some, bind_some, objGet_append hbefore]
    cases v with
    | none =>
      rw [map_none, toList_none, nil_append, objGet_none hrest, map_none, map_none]
    | some v =>
      rw [map_some, toList_some, singleton_append, objGet_cons, map_some, map_some]
      exact congrArg some (decodeRecord_encodeRecord listed s.fields (nodup_fieldNames s)
        (hasRoom_fields s) v [] (by simp))

theorem decodeArg_encodeArg (t : ArgType) (v : t.Value) (hbefore : ∀ m ∈ before, m.1 ≠ lit name)
    (hrest : ∀ m ∈ rest, m.1 ≠ lit name) :
    decodeArg (.obj (before ++ (encodeArg name t v ++ rest))) name t = t.reread v := by
  cases t with
  | charPtr =>
    rw [decodeArg, objGet_append hbefore]
    cases v with
    | none =>
      rw [encodeArg, nil_append, objGet_none hrest]
      rfl
    | some v =>
      rw [encodeArg, singleton_append, objGet_cons]
      exact congrArg some (Subtype.ext (cstr_eq_self v.property))
  | int t =>
    rw [decodeArg, objGet_append hbefore, encodeArg, singleton_append, objGet_cons, getInt_addInt]
    rfl
  | struct s => exact decodeStruct_encodeStruct s v hbefore hrest

theorem decodeArgs_encodeArgs (ps : List Param) (hnames : (ps.map fun p => lit p.name).Nodup)
    (v : Args ps) (before : List (Bytes × Json))
    (hbefore : ∀ m ∈ before, m.1 ∉ ps.map fun p => lit p.name) :
    decodeArgs (.obj (before ++ encodeArgs ps v)) ps = rereadArgs ps v := by
  induction ps generalizing before with
  | nil => rfl
  | cons p ps ih =>
    obtain ⟨x, v⟩ := v
    rw [map_cons, nodup_cons] at hnames
    refine Prod.ext ?_ ?_
    · refine decodeArg_encodeArg p.type x (fun m hm h => hbefore m hm (h ▸ mem_cons_self)) ?_
      exact fun m hm h => hnames.1 (h ▸ key_of_mem_encodeArgs hm)
    · show decodeArgs _ ps = rereadArgs ps v
      rw [encodeArgs_cons, ← append_assoc]
      refine ih hnames.2 v _ ?_
      intro m hm hin
      rcases mem_append.mp hm with hm | hm
      · exact hbefore m hm (mem_cons_of_mem _ hin)
      · exact hnames.1 (key_of_mem_encodeArg hm ▸ hin)

theorem StorageOp.mem_all (op : StorageOp) : op ∈ all := by
  cases op <;> decide

/-- The names lead back to the operations; no argument is called `op`, and no two
arguments of an operation have one name. -/
theorem StorageOp.names_ok : ∀ op ∈ all, ofName (lit op.name) = some op ∧
    cstr (lit op.name) = lit op.name ∧ (lit "op" :: op.params.map fun p => lit p.name).Nodup := by
  decide +kernel

/-- The call `raft_apply_dispatch` makes for the document of any proxy call. -/
theorem raftApplyDispatch_proxyDocument (c : Command) :
    raftApplyDispatch (proxyDocument c) = some c.reread := by
  obtain ⟨hofName, hcstr, hnodup⟩ := StorageOp.names_ok c.op c.op.mem_all
  obtain ⟨hop, hnames⟩ := nodup_cons.mp hnodup
  have hargs := decodeArgs_encodeArgs c.op.params hnames c.args
    [(lit "op", .str (lit c.op.name))] (by simpa using hop)
  rw [raftApplyDispatch, proxyDocument, objGet_cons, getStr, hcstr]
  simp only [bind_eq_bind, bind_some, hofName]
  rw [← singleton_append, hargs]
  rfl

/-- What survives of a struct argument: NULL, and a record with all it has in the
generator's list. -/
def StructSurvives : Option (Record s.fields) → Prop
  | none => True
  | some v => ∃ listed ∈ listedFields s, RecordSurvives listed s.fields v

/-- What survives of an argument. -/
def ArgType.Survives : (t : ArgType) → t.Value → Prop
  | .charPtr, _ => True
  | .int t, v => IntNarrow t v
  | .struct s, v => StructSurvives s v

def ArgsSurvive : (ps : List Param) → Args ps → Prop
  | [], _ => True
  | p :: ps, v => p.type.Survives v.1 ∧ ArgsSurvive ps v.2

/-- Integers of 64 bits are sign extensions of 32, the struct fields that are not
serialized are zero and empty, and a struct of another type is NULL. -/
def Command.Survives (c : Command) : Prop := ArgsSurvive c.op.params c.args

theorem rereadStruct_eq_iff (v : Option (Record s.fields)) :
    rereadStruct s v = v ↔ StructSurvives s v := by
  rw [rereadStruct]
  cases v with
  | none => exact iff_of_true (by simp) trivial
  | some v =>
    rw [StructSurvives]
    cases listedFields s with
    | none => simp
    | some listed => simp [rereadRecord_eq_iff]

theorem ArgType.reread_eq_iff (t : ArgType) (v : t.Value) : t.reread v = v ↔ t.Survives v := by
  cases t with
  | charPtr => exact iff_of_true rfl trivial
  | int t => exact rereadInt_eq_iff t v
  | struct s => exact rereadStruct_eq_iff s v

theorem rereadArgs_eq_iff (ps : List Param) (v : Args ps) :
    rereadArgs ps v = v ↔ ArgsSurvive ps v := by
  induction ps with
  | nil => exact iff_of_true rfl trivial
  | cons p ps ih =>
    obtain ⟨x, v⟩ := v
    show (_, _) = (x, v) ↔ _
    rw [Prod.mk.injEq, p.type.reread_eq_iff, ih v]
    rfl

theorem roundTrip_command_iff (c : Command) :
    raftApplyDispatch (proxyDocument c) = some c ↔ c.Survives := by
  rw [raftApplyDispatch_proxyDocument, some_inj, Command.Survives, ← rereadArgs_eq_iff]
  obtain ⟨op, args⟩ := c
  simp [Command.reread]

/-! ## §5 Messages -/

/-- A term or index that is read back. -/
def Narrow (n : Int64) : Prop := -2 ^ 31 ≤ n.toInt ∧ n.toInt < 2 ^ 31

def RequestVote.Survives (m : RequestVote) : Prop :=
  Narrow m.term ∧ Narrow m.lastLogIdx ∧ Narrow m.lastLogTerm

def Entry.Survives (e : Entry) : Prop :=
  Narrow e.term ∧ ∀ d ∈ e.data, (0 : UInt8) ∉ d

def AppendEntries.Survives (m : AppendEntries) : Prop :=
  Narrow m.term ∧ Narrow m.prevLogIdx ∧ Narrow m.prevLogTerm ∧ Narrow m.leaderCommit ∧
    ∀ e ∈ m.entries, e.Survives

theorem roundTrip_requestVote_iff (senderId : Int32) (m : RequestVote) :
    RequestVote.ofDocument (m.document senderId) = m ↔ m.Survives := by
  have hread : RequestVote.ofDocument (m.document senderId) =
      ⟨Int64.ofInt (m.term.toInt.bmod (2 ^ 32)), m.candidateId,
        Int64.ofInt (m.lastLogIdx.toInt.bmod (2 ^ 32)),
        Int64.ofInt (m.lastLogTerm.toInt.bmod (2 ^ 32))⟩ := by
    rw [← getInt_addInt, ← getInt_addInt, ← getInt_addInt]
    conv_rhs => rw [← reread_int32 m.candidateId, ← getInt_addInt]
    rfl
  rw [hread]
  obtain ⟨term, candidateId, lastLogIdx, lastLogTerm⟩ := m
  simp only [RequestVote.mk.injEq, reread_int64_iff, true_and]
  rfl

theorem objGet_data_document (e : Entry) :
    Json.getStr (Json.objGet (some e.document) (lit "data")) = e.data.map cstr := by
  obtain ⟨term, id, type, data⟩ := e
  cases data with
  | none => rfl
  | some d => exact congrArg some (cstr_cstr d)

theorem cstr_eq_iff (d : Bytes) : cstr d = d ↔ (0 : UInt8) ∉ d :=
  ⟨fun h => h ▸ not_mem_cstr d, cstr_eq_self⟩

theorem roundTrip_entry_iff (e : Entry) : Entry.ofDocument e.document = e ↔ e.Survives := by
  have hread : Entry.ofDocument e.document =
      ⟨Int64.ofInt (e.term.toInt.bmod (2 ^ 32)), e.id, e.type, e.data.map cstr⟩ := by
    rw [← getInt_addInt, ← objGet_data_document]
    conv_rhs => rw [← reread_int32 e.id, ← reread_int32 e.type, ← getInt_addInt, ← getInt_addInt]
    rfl
  rw [hread]
  obtain ⟨term, id, type, data⟩ := e
  simp only [Entry.mk.injEq, reread_int64_iff, true_and, Entry.Survives]
  cases data with
  | none => simp [Narrow]
  | some d => simp [Narrow, cstr_eq_iff]

theorem ofDocument_document_entries (senderId : Int32) {m : AppendEntries} (hm : m.Sized) :
    (AppendEntries.ofDocument (m.document senderId)).entries =
      m.entries.map fun e => Entry.ofDocument e.document := by
  have hcount : getInt (some (addInt m.nEntries.toInt)) = m.nEntries.toInt := by
    have hlo := m.nEntries.le_toInt
    have hhi := m.nEntries.toInt_lt
    rw [getInt_addInt]
    exact Int.bmod_eq_of_le (by omega) (by omega)
  have hsized : m.nEntries.toInt.toNat = m.entries.length := by
    rw [← hm, Int.toNat_natCast]
  show AppendEntries.readEntries (getInt (some (addInt m.nEntries.toInt)))
    (some ((m.entries.take m.nEntries.toInt.toNat).map Entry.document)) = _
  rw [hcount, hsized, List.take_length, AppendEntries.readEntries]
  split
  · rw [hsized, List.length_map, Nat.sub_self, List.replicate_zero, List.append_nil,
      List.take_of_length_le (by rw [List.length_map]), List.map_map]
    rfl
  · next hpos =>
    have hnil : m.entries = [] := List.eq_nil_of_length_eq_zero (by omega)
    rw [hnil, List.map_nil]

theorem roundTrip_appendEntries_iff (senderId : Int32) {m : AppendEntries} (hm : m.Sized) :
    AppendEntries.ofDocument (m.document senderId) = m ↔ m.Survives := by
  have hentries := ofDocument_document_entries senderId hm
  have hread : AppendEntries.ofDocument (m.document senderId) =
      ⟨Int64.ofInt (m.term.toInt.bmod (2 ^ 32)), Int64.ofInt (m.prevLogIdx.toInt.bmod (2 ^ 32)),
        Int64.ofInt (m.prevLogTerm.toInt.bmod (2 ^ 32)),
        Int64.ofInt (m.leaderCommit.toInt.bmod (2 ^ 32)), m.nEntries,
        m.entries.map fun e => Entry.ofDocument e.document⟩ := by
    rw [← hentries, ← getInt_addInt, ← getInt_addInt, ← getInt_addInt, ← getInt_addInt]
    conv_rhs => rw [← reread_int32 m.nEntries, ← getInt_addInt]
    rfl
  rw [hread]
  obtain ⟨term, prevLogIdx, prevLogTerm, leaderCommit, nEntries, entries⟩ := m
  have hmap : (entries.map fun e => Entry.ofDocument e.document) = entries ↔
      ∀ e ∈ entries, e.Survives := by
    conv_lhs => rhs; rw [← map_id entries]
    rw [map_inj_left]
    exact forall₂_congr fun e _ => roundTrip_entry_iff e
  simp only [AppendEntries.mk.injEq, reread_int64_iff, true_and, hmap]
  rfl

/-! ## §6 The codec -/

/-- Exactly the commands and messages that are carried over as they were given:
every operation with every argument values, and the two messages. -/
theorem codec_roundTrip_iff (c : Command) (senderId : Int32) (vote : RequestVote)
    (append : AppendEntries) (hsized : append.Sized) :
    (raftApplyDispatch (proxyDocument c) = some c ↔ c.Survives) ∧
      (RequestVote.ofDocument (vote.document senderId) = vote ↔ vote.Survives) ∧
      (AppendEntries.ofDocument (append.document senderId) = append ↔ append.Survives) :=
  ⟨roundTrip_command_iff c, roundTrip_requestVote_iff senderId vote,
    roundTrip_appendEntries_iff senderId hsized⟩

/-- A heartbeat of term 3 with one entry. -/
def sampleAppend : AppendEntries := ⟨3, 1, 2, 1, 1, [⟨3, 7, 0, some (lit "x")⟩]⟩

theorem sampleAppend_roundTrips : sampleAppend.Sized ∧
    AppendEntries.ofDocument (sampleAppend.document 1) = sampleAppend ∧
    raftApplyDispatch (proxyDocument ⟨.userDelete, ((5 : UInt64), ())⟩) =
      some ⟨.userDelete, ((5 : UInt64), ())⟩ := by
  have hsized : sampleAppend.Sized := by
    unfold AppendEntries.Sized
    decide
  obtain ⟨hcommand, -, happend⟩ := codec_roundTrip_iff ⟨.userDelete, ((5 : UInt64), ())⟩ 1
    ⟨3, 1, 2, 1⟩ sampleAppend hsized
  refine ⟨hsized, happend.mpr ?_, hcommand.mpr ⟨Or.inl (by decide), trivial⟩⟩
  unfold AppendEntries.Survives Entry.Survives Narrow
  decide +kernel

/-- A user with a second factor, an id past 32 bits and times in milliseconds. -/
def enrolledUser : Record StructType.user.fields :=
  ((4294967301 : UInt64), Chars.copy 64 (lit "ada"), Chars.copy 32 [], Chars.copy 256 (lit "h"),
    Chars.copy 128 [], Chars.copy 128 (lit "Ada"), (1 : UInt32), (1700000000000 : Int64),
    (1700000000000 : Int64), Chars.copy 2048 (lit "level=3"), (1 : Int32),
    Chars.copy 64 (lit "JBSWY3DP"), (1700000000000 : Int64), ())

/-- The same user as the inner backend gets it. -/
def strippedUser : Record StructType.user.fields :=
  ((5 : UInt64), Chars.copy 64 (lit "ada"), Chars.copy 32 [], Chars.copy 256 (lit "h"),
    Chars.copy 128 [], Chars.copy 128 (lit "Ada"), (1 : UInt32), (-807049216 : Int64),
    (-807049216 : Int64), Chars.copy 2048 [], (0 : Int32), Chars.copy 64 [], (0 : Int64), ())

def sampleRefreshToken : Record StructType.refreshToken.fields :=
  (Chars.copy 128 (lit "hash"), (5 : UInt64), Chars.copy 64 (lit "app"), (1700000000000 : Int64),
    (1700000000000 : Int64), (0 : Int32), ())

/-- The update drops the second factor and the attributes and goes to another id, the
token is NULL at the backend, and a vote asked for in term 2^32 + 1 is one in term 1. -/
theorem codec_loses :
    raftApplyDispatch (proxyDocument ⟨.userUpdate, (some enrolledUser, ())⟩) =
        some ⟨.userUpdate, (some strippedUser, ())⟩ ∧ enrolledUser ≠ strippedUser ∧
      raftApplyDispatch (proxyDocument ⟨.refreshTokenCreate, (some sampleRefreshToken, ())⟩) =
        some ⟨.refreshTokenCreate, (none, ())⟩ ∧
      RequestVote.ofDocument (RequestVote.document 2 ⟨4294967297, 2, 0, 0⟩) = ⟨1, 2, 0, 0⟩ := by
  decide +kernel

end SsoSystem.Raft
