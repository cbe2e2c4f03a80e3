/-
SsoSystem.Logger — `json_escape` of the JSON log format (src/logger.c), in the
memory it writes to.

The loop stops six bytes before the end of the buffer, so every escape it
starts fits as a whole and the tests inside the cases are always true. The
NUL that `snprintf` puts behind a `\u` escape is inside the buffer too; the
next character overwrites it.
-/
import SsoSystem.Lib.JsonText
import SsoSystem.Token.Base64Url

namespace SsoSystem

open CMem JsonText List Option

/-! ## §1 The function -/

/-- Stores bytes from `off` on. -/
def CMem.Block.store (m : Block) (off : Nat) (bs : Bytes) : Block := fun i =>
  if off ≤ i then (bs[i - off]?).getD (m i) else m i

/-- The letter of a two-byte escape. -/
def escapeLetter (c : UInt8) : Option UInt8 :=
  if c = 34 then some 34
  else if c = 92 then some 92
  else if c = 8 then some 98
  else if c = 12 then some 102
  else if c = 10 then some 110
  else if c = 13 then some 114
  else if c = 9 then some 116
  else none

/-- One turn of the loop: the new position and what is in the buffer. -/
def jsonEscapeTurn (size : Nat) (c : UInt8) (j : Nat) (dst : Block) : Nat × Block :=
  match escapeLetter c with
  | some e => if j + 2 < size then (j + 2, dst.store j [92, e]) else (j, dst)
  | none =>
    if 0x20 ≤ c.toNat ∧ c.toNat < 0x7F then
      if j + 1 < size then (j + 1, dst.store j [c]) else (j, dst)
    else if j + 6 < size then
      -- `snprintf(dst + j, 7, "\\u%04x", c)`
      (j + 6, dst.store j (lit "\\u00" ++ hexByte c ++ [0]))
    else (j, dst)

def jsonEscapeLoop (size : Nat) : Bytes → Nat → Block → Nat × Block
  | [], j, dst => (j, dst)
  | c :: src, j, dst =>
    if j + 6 < size then
      let (j, dst) := jsonEscapeTurn size c j dst
      jsonEscapeLoop size src j dst
    else (j, dst)

/-- `json_escape`: what it leaves at `dst`. -/
def jsonEscape (src : Bytes) (dst : Block) (size : Nat) : Block :=
  let r := jsonEscapeLoop size (cstr src) 0 dst
  r.2.store r.1 [0]

/-! ## §2 What it writes -/

/-- What one byte becomes. -/
def logEscape (c : UInt8) : Bytes :=
  match escapeLetter c with
  | some e => [92, e]
  | none => if 0x20 ≤ c.toNat ∧ c.toNat < 0x7F then [c] else lit "\\u00" ++ hexByte c

theorem logEscape_spec (c : UInt8) : decode (logEscape c) = some [c.toNat] ∧
    (logEscape c).length ≤ 6 ∧ ∀ b ∈ logEscape c, 32 ≤ b.toNat ∧ b.toNat < 127 := by
  have hall : ∀ c : Fin 256, decode (logEscape (UInt8.ofFin c)) = some [(UInt8.ofFin c).toNat] ∧
      (logEscape (UInt8.ofFin c)).length ≤ 6 ∧
      ((logEscape (UInt8.ofFin c)).all fun b => decide (32 ≤ b.toNat ∧ b.toNat < 127)) = true := by
    decide +kernel
  have hc := hall c.toFin
  rw [UInt8.ofFin_toFin] at hc
  exact ⟨hc.1, hc.2.1, forall_of_all hc.2.2⟩

section Store

variable {m : Block} {off i : Nat} {bs cs : Bytes}

theorem store_apply_of_lt (h : i < off) : m.store off bs i = m i := by
  rw [Block.store, if_neg (by omega)]

theorem store_apply_of_mem {b : UInt8} (h : bs[i]? = some b) : m.store off bs (off + i) = b := by
  rw [Block.store, if_pos (by omega), Nat.add_sub_cancel_left, h, getD_some]

theorem store_apply_of_ge (h : off + bs.length ≤ i) : m.store off bs i = m i := by
  rw [Block.store]
  split
  · rw [getElem?_eq_none (by omega), getD_none]
  · rfl

end Store

section Escape

variable {size j : Nat}

/-- A turn writes the escape of its byte and moves behind it; a NUL may be left there. -/
theorem jsonEscapeTurn_eq (dst : Block) (hj : j + 6 < size) (c : UInt8) : ∃ z : Bytes, z.length ≤
    1 ∧
    jsonEscapeTurn size c j dst = (j + (logEscape c).length, dst.store j (logEscape c ++ z)) := by
  unfold jsonEscapeTurn logEscape
  cases escapeLetter c with
  | some e =>
    refine ⟨[], by simp, ?_⟩
    dsimp only
    rw [if_pos (by omega), append_nil]
    rfl
  | none =>
    dsimp only
    split
    · refine ⟨[], by simp, ?_⟩
      rw [if_pos (by omega), append_nil]
      rfl
    · refine ⟨[0], by simp, ?_⟩
      rfl

/-- The loop: which bytes it takes, what stands in the buffer, and that nothing else changes. -/
theorem jsonEscapeLoop_spec (src : Bytes) (dst : Block) (hj : j < size) : ∃ p, p <+: src ∧
    (jsonEscapeLoop size src j dst).1 = j + (p.flatMap logEscape).length ∧
    (jsonEscapeLoop size src j dst).1 < size ∧
    (∀ i < j, (jsonEscapeLoop size src j dst).2 i = dst i) ∧
    (∀ i b, (p.flatMap logEscape)[i]? = some b → (jsonEscapeLoop size src j dst).2 (j + i) = b) ∧
    (∀ i, size ≤ i → (jsonEscapeLoop size src j dst).2 i = dst i) ∧
    (j + 6 * src.length < size → p = src) := by
  induction src generalizing j dst with
  | nil =>
    exact ⟨[], prefix_rfl, rfl, hj, fun _ _ => rfl, fun i b h => by simp at h,
      fun _ _ => rfl, fun _ => rfl⟩
  | cons c src ih =>
    rw [jsonEscapeLoop]
    split
    · next hroom =>
      obtain ⟨z, hz, hturn⟩ := jsonEscapeTurn_eq dst hroom c
      obtain ⟨-, hlen, -⟩ := logEscape_spec c
      rw [hturn]
      obtain ⟨p, hp, hpos, hsize, hbefore, hholds, hafter, hall⟩ :=
        ih (dst.store j (logEscape c ++ z)) (show j + (logEscape c).length < size by omega)
      refine ⟨c :: p, cons_prefix_cons.mpr ⟨rfl, hp⟩, ?_, hsize, ?_, ?_, ?_, ?_⟩
      · rw [hpos, flatMap_cons, length_append, Nat.add_assoc]
      · intro i hi
        rw [hbefore i (by omega), store_apply_of_lt hi]
      · intro i b hb
        rw [flatMap_cons] at hb
        rcases Nat.lt_or_ge i (logEscape c).length with hlt | hge
        · rw [getElem?_append_left hlt] at hb
          rw [hbefore (j + i) (by omega)]
          exact store_apply_of_mem (by rw [getElem?_append_left hlt, hb])
        · rw [getElem?_append_right hge] at hb
          have := hholds _ b hb
          rwa [show j + (logEscape c).length + (i - (logEscape c).length) = j + i by omega] at this
      · intro i hi
        rw [hafter i hi, store_apply_of_ge (by rw [length_append]; omega)]
      · intro hfits
        rw [length_cons] at hfits
        rw [hall (by omega)]
    · exact ⟨[], nil_prefix, rfl, hj, fun _ _ => rfl, fun i b h => by simp at h,
        fun _ _ => rfl, fun hfits => by rw [length_cons] at hfits; omega⟩

theorem decode_flatMap_logEscape (p : Bytes) :
    decode (p.flatMap logEscape) = some (p.map UInt8.toNat) := by
  induction p with
  | nil => rfl
  | cons c p ih => exact decode_append (logEscape_spec c).1 ih

/-- **JSON escaping.** For every message and every buffer of at least one byte the buffer ends
up with a text that ends in it, with no byte outside of it touched; the text is the body of a JSON
string without control bytes, spells a beginning of the message, and all of the message if the
buffer is larger than six times that. -/
theorem jsonEscape_sound (src : Bytes) (dst : Block) {size : Nat} (hsize : 1 ≤ size) :
    ∃ text p, (jsonEscape src dst size).cstrFrom 0 size = text ∧
      text.length < size ∧ jsonEscape src dst size text.length = 0 ∧
      (∀ i, size ≤ i → jsonEscape src dst size i = dst i) ∧
      (∀ c ∈ text, 32 ≤ c.toNat ∧ c.toNat < 127) ∧
      decode text = some (p.map UInt8.toNat) ∧ p <+: cstr src ∧
      (6 * (cstr src).length < size → p = cstr src) := by
  obtain ⟨p, hp, hpos, hlt, -, hholds, hafter, hall⟩ :=
    jsonEscapeLoop_spec (cstr src) dst hsize
  have hascii : ∀ c ∈ p.flatMap logEscape, 32 ≤ c.toNat ∧ c.toNat < 127 := by
    intro c hc
    obtain ⟨b, -, hb⟩ := mem_flatMap.mp hc
    exact (logEscape_spec b).2.2 c hb
  rw [Nat.zero_add] at hpos
  have hend : jsonEscape src dst size (p.flatMap logEscape).length = 0 := by
    rw [jsonEscape, hpos]
    exact store_apply_of_mem (i := 0) rfl
  refine ⟨p.flatMap logEscape, p, ?_, by omega, hend, ?_, hascii, decode_flatMap_logEscape p, hp,
    fun hfits => hall (by omega)⟩
  · refine Block.cstrFrom_eq_of_spells ?_ (by omega) fun i hi => ?_
    · intro hnul
      exact absurd (hascii 0 hnul).1 (by decide)
    · rw [Nat.zero_add]
      rcases Nat.lt_or_eq_of_le hi with hi | rfl
      · have hb : (p.flatMap logEscape)[i]? = some (p.flatMap logEscape)[i] :=
          getElem?_eq_getElem hi
        rw [jsonEscape, hpos, store_apply_of_lt hi, hb, getD_some]
        simpa using hholds i _ hb
      · rw [hend, getElem?_eq_none le_rfl, getD_none]
  · intro i hi
    rw [jsonEscape, hpos, store_apply_of_ge (by rw [length_singleton]; omega), hafter i hi]

end Escape

/-- Two lines of a message and a byte that is no ASCII. -/
theorem newline_escaped :
    (jsonEscape (lit "a\nb" ++ [233]) Block.zero 32).cstrFrom 0 32 = lit "a\\nb\\u00e9" ∧
    ∃ text p, (jsonEscape (lit "a\nb" ++ [233]) Block.zero 32).cstrFrom 0 32 = text ∧
      text.length < 32 ∧ jsonEscape (lit "a\nb" ++ [233]) Block.zero 32 text.length = 0 ∧
      (∀ i, 32 ≤ i → jsonEscape (lit "a\nb" ++ [233]) Block.zero 32 i = Block.zero i) ∧
      (∀ c ∈ text, 32 ≤ c.toNat ∧ c.toNat < 127) ∧
      decode text = some (p.map UInt8.toNat) ∧ p <+: cstr (lit "a\nb" ++ [233]) ∧
      (6 * (cstr (lit "a\nb" ++ [233])).length < 32 → p = cstr (lit "a\nb" ++ [233])) :=
  ⟨by decide +kernel, jsonEscape_sound _ _ (by decide)⟩

end SsoSystem
