/-
SsoSystem.JsonWriter — the minified JSON text yyjson writes
(`yyjson_mut_write(doc, 0, NULL)`, src/yyjson.c).

With no flags set a string is copied byte for byte except for the quote, the
backslash and the control characters, and a string that is not valid UTF-8
makes the whole document NULL. The source checks and copies in one pass; the
text of a failed pass is dropped, so the check is a predicate of its own here.
-/
import SsoSystem.Json
import SsoSystem.Lib.Decimal

namespace SsoSystem.Json

open CMem Decimal List

/-! ## §1 Strings -/

/-- A UTF-8 continuation byte. -/
def isTail (b : UInt8) : Bool := 0x80 ≤ b.toNat && b.toNat < 0xC0

/-- `is_utf8_seq2` on a lead byte below `0xE0`: no overlong form. -/
def isUtf8Seq2 (a b : UInt8) : Bool := 0xC2 ≤ a.toNat && isTail b

/-- `is_utf8_seq3` on a lead byte below `0xF0`: no overlong form, no surrogate. -/
def isUtf8Seq3 (a b c : UInt8) : Bool :=
  isTail b && isTail c && !(a = 0xE0 && b.toNat < 0xA0) && !(a = 0xED && 0xA0 ≤ b.toNat)

/-- `is_utf8_seq4` on a lead byte below `0xF8`: no overlong form, at most U+10FFFF. -/
def isUtf8Seq4 (a b c d : UInt8) : Bool :=
  isTail b && isTail c && isTail d && !(a = 0xF0 && b.toNat < 0x90) &&
    (a.toNat < 0xF4 || (a = 0xF4 && b.toNat < 0x90))

/-- The check `write_str` makes on the way: one clause per lead byte class. -/
def utf8Valid : Bytes → Bool
  | [] => true
  | a :: rest =>
    if a.toNat < 0x80 then utf8Valid rest
    else if a.toNat < 0xC0 then false
    else if a.toNat < 0xE0 then
      match rest with
      | b :: rest => isUtf8Seq2 a b && utf8Valid rest
      | _ => false
    else if a.toNat < 0xF0 then
      match rest with
      | b :: c :: rest => isUtf8Seq3 a b c && utf8Valid rest
      | _ => false
    else if a.toNat < 0xF8 then
      match rest with
      | b :: c :: d :: rest => isUtf8Seq4 a b c d && utf8Valid rest
      | _ => false
    else false

/-- `esc_hex_char_table`: an upper-case hex digit. -/
def upperHexChar (d : Nat) : UInt8 := (lit "0123456789ABCDEF").getD d 0

/-- What one byte is written as (`enc_table_cpy`, `esc_single_char_table`). -/
def escapeByte (b : UInt8) : Bytes :=
  if b = 34 ∨ b = 92 then [92, b]
  else if b = 8 then lit "\\b"
  else if b = 9 then lit "\\t"
  else if b = 10 then lit "\\n"
  else if b = 12 then lit "\\f"
  else if b = 13 then lit "\\r"
  else if b.toNat < 32 then lit "\\u00" ++
    [upperHexChar (b.toNat / 16), upperHexChar (b.toNat % 16)]
  else [b]

/-- The text between the quotes. -/
def escape (s : Bytes) : Bytes := s.flatMap escapeByte

/-- `write_str`. -/
def writeStr (s : Bytes) : Option Bytes :=
  if utf8Valid s then some (34 :: escape s ++ [34]) else none

/-! ## §2 Documents -/

/-- `yyjson_mut_uint`. -/
def uint (n : UInt64) : Json := .num (decimal n.toNat)

mutual

/-- The text of a value. -/
def write : Json → Option Bytes
  | .null => some (lit "null")
  | .bool true => some (lit "true")
  | .bool false => some (lit "false")
  | .num literal => some literal
  | .str s => writeStr s
  | .arr xs => (writeElems xs).map fun ts => 91 :: [44].intercalate ts ++ [93]
  | .obj ms => (writeMembers ms).map fun ts => 123 :: [44].intercalate ts ++ [125]

/-- The texts of an array's elements. -/
def writeElems : List Json → Option (List Bytes)
  | [] => some []
  | x :: xs => (write x).bind fun t => (writeElems xs).map (t :: ·)

/-- The texts of an object's members. -/
def writeMembers : List (Bytes × Json) → Option (List Bytes)
  | [] => some []
  | (k, v) :: ms =>
    (writeStr k).bind fun kt => (write v).bind fun t =>
      (writeMembers ms).map ((kt ++ 58 :: t) :: ·)

end

/-! ## §3 Escaping -/

/-- A byte that is written as itself. -/
def isPlain (b : UInt8) : Bool := b ≠ 34 && b ≠ 92 && 32 ≤ b.toNat

variable {b : UInt8} {s : Bytes}

theorem escapeByte_plain (h : isPlain b = true) : escapeByte b = [b] := by
  have hall : ∀ b : Fin 256, isPlain (UInt8.ofFin b) = true →
      escapeByte (UInt8.ofFin b) = [UInt8.ofFin b] := by decide +kernel
  simpa using hall b.toFin (by simpa using h)

/-- What a byte that is not plain is written as starts with a backslash and is longer. -/
theorem escapeByte_not_plain (h : isPlain b = false) : ∃ c t, escapeByte b = 92 :: c :: t := by
  have hall : ∀ b : Fin 256, isPlain (UInt8.ofFin b) = false →
      (escapeByte (UInt8.ofFin b)).head? = some 92 ∧ 2 ≤ (escapeByte (UInt8.ofFin b)).length := by
    decide +kernel
  have hb := hall b.toFin (by simpa using h)
  simp only [UInt8.ofFin_toFin] at hb
  match hesc : escapeByte b, hb with
  | d :: c :: t, hb =>
    simp only [List.head?_cons, Option.some.injEq] at hb
    exact ⟨c, t, by rw [hb.1]⟩

/-- Only a quote puts a quote into the text. -/
theorem quote_mem_escapeByte (h : (34 : UInt8) ∈ escapeByte b) : b = 34 := by
  have hall : ∀ b : Fin 256, (34 : UInt8) ∈ escapeByte (UInt8.ofFin b) → UInt8.ofFin b = 34 := by
    decide +kernel
  simpa using hall b.toFin (by simpa using h)

/-- No escape sequence holds a NUL, and a NUL is escaped. -/
theorem nul_not_mem_escapeByte (b : UInt8) : (0 : UInt8) ∉ escapeByte b := by
  have hall : ∀ b : Fin 256, (0 : UInt8) ∉ escapeByte (UInt8.ofFin b) := by decide +kernel
  simpa using hall b.toFin

@[simp] theorem escape_nil : escape [] = [] := rfl

theorem escape_cons (b : UInt8) (s : Bytes) : escape (b :: s) = escapeByte b ++ escape s := rfl

theorem quote_not_mem_escape (h : (34 : UInt8) ∉ s) : (34 : UInt8) ∉ escape s := by
  intro hmem
  obtain ⟨b, hb, hesc⟩ := mem_flatMap.mp hmem
  exact h (quote_mem_escapeByte hesc ▸ hb)

theorem nul_not_mem_escape (s : Bytes) : (0 : UInt8) ∉ escape s := by
  intro hmem
  obtain ⟨b, -, hesc⟩ := mem_flatMap.mp hmem
  exact nul_not_mem_escapeByte b hesc

theorem escape_of_plain (h : ∀ b ∈ s, isPlain b = true) : escape s = s := by
  induction s with
  | nil => rfl
  | cons b s ih =>
    rw [escape_cons, escapeByte_plain (h b (by simp)), ih fun c hc => h c (by simp [hc])]
    rfl

theorem length_le_length_escape (s : Bytes) : s.length ≤ (escape s).length := by
  induction s with
  | nil => simp
  | cons b s ih =>
    cases hb : isPlain b with
    | true => simpa [escape_cons, escapeByte_plain hb] using ih
    | false =>
      obtain ⟨c, t, hesc⟩ := escapeByte_not_plain hb
      simp only [escape_cons, hesc, length_append, length_cons]
      omega

/-- Text that is written as it is, is plain: any escape makes it longer. -/
theorem plain_of_escape_eq (h : escape s = s) : ∀ b ∈ s, isPlain b = true := by
  induction s with
  | nil => simp
  | cons b s ih =>
    cases hb : isPlain b with
    | true =>
      rw [escape_cons, escapeByte_plain hb, singleton_append, cons.injEq] at h
      simp only [forall_mem_cons]
      exact ⟨hb, ih h.2⟩
    | false =>
      obtain ⟨c, t, hesc⟩ := escapeByte_not_plain hb
      have hlen := congrArg List.length h
      have hle := length_le_length_escape s
      simp only [escape_cons, hesc, length_append, length_cons] at hlen
      omega

/-! ## §4 Plain ASCII -/

/-- A printable ASCII byte that is written as itself. -/
def isPlainAscii (b : UInt8) : Bool := isPlain b && b.toNat < 0x80

theorem utf8Valid_of_ascii (h : ∀ b ∈ s, b.toNat < 0x80) : utf8Valid s = true := by
  induction s with
  | nil => rfl
  | cons b s ih =>
    rw [utf8Valid.eq_def]
    dsimp only
    rw [if_pos (h b (by simp))]
    exact ih fun c hc => h c (by simp [hc])

theorem plainAscii_spec (h : s.all isPlainAscii = true) : utf8Valid s = true ∧ escape s = s := by
  simp only [all_eq_true, isPlainAscii, Bool.and_eq_true, decide_eq_true_eq] at h
  exact ⟨utf8Valid_of_ascii fun b hb => (h b hb).2, escape_of_plain fun b hb => (h b hb).1⟩

theorem writeStr_of_plainAscii (h : s.all isPlainAscii = true) :
    writeStr s = some (34 :: (s ++ [34])) := by
  obtain ⟨hvalid, hesc⟩ := plainAscii_spec h
  simp [writeStr, hvalid, hesc]

/-! ## §5 Arrays of numbers -/

theorem writeElems_uint (ids : List UInt64) :
    writeElems (ids.map uint) = some (ids.map fun i => decimal i.toNat) := by
  induction ids with
  | nil => rfl
  | cons i ids ih => simp [writeElems, ih, uint, write]

end SsoSystem.Json
