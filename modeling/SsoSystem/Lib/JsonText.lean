/-
SsoSystem.Lib.JsonText — reading the body of a JSON string.

A body is read character by character (`readChar`): a byte that stands for
itself or an escape sequence. Bytes are code points from 0 to 255, so nothing
is said about UTF-8. `decode` reads a whole body; two bodies one after the
other are read one after the other (`decode_append`).
-/
import SsoSystem.Lib.Decimal

namespace SsoSystem.JsonText

open CMem Decimal List Option

/-! ## §1 Characters -/

/-- The value of a hexadecimal digit. -/
def hexValue (c : UInt8) : Option Nat :=
  if 48 ≤ c.toNat ∧ c.toNat ≤ 57 then some (c.toNat - 48)
  else if 97 ≤ c.toNat ∧ c.toNat ≤ 102 then some (c.toNat - 87)
  else if 65 ≤ c.toNat ∧ c.toNat ≤ 70 then some (c.toNat - 55)
  else none

/-- The code point of four hexadecimal digits. -/
def hexWord (a b c d : UInt8) : Option Nat := do
  let a ← hexValue a
  let b ← hexValue b
  let c ← hexValue c
  let d ← hexValue d
  return ((a * 16 + b) * 16 + c) * 16 + d

/-- The code point of a backslash and one more byte. -/
def shortEscape (e : UInt8) : Option Nat :=
  if e = 34 ∨ e = 92 ∨ e = 47 then some e.toNat
  else if e = 98 then some 8
  else if e = 102 then some 12
  else if e = 110 then some 10
  else if e = 114 then some 13
  else if e = 116 then some 9
  else none

/-- The code point of the four digits behind `\u`, and what follows them. -/
def readUnicode : Bytes → Option (Nat × Bytes)
  | a :: b :: c :: d :: s => (hexWord a b c d).map fun u => (u, s)
  | _ => none

/-- The same behind a backslash. -/
def readEscape : Bytes → Option (Nat × Bytes)
  | [] => none
  | e :: s => if e = 117 then readUnicode s else (shortEscape e).map fun u => (u, s)

/-- One character of a string body, and what follows it; none at a quote. -/
def readChar : Bytes → Option (Nat × Bytes)
  | [] => none
  | c :: s =>
    if c = 34 ∨ c.toNat < 32 then none
    else if c = 92 then readEscape s
    else some (c.toNat, s)

/-- A byte that stands for itself in a string body. -/
def IsPlain (c : UInt8) : Prop := c ≠ 34 ∧ c ≠ 92 ∧ 32 ≤ c.toNat

instance : DecidablePred IsPlain := fun _ => inferInstanceAs (Decidable (_ ∧ _ ∧ _))

theorem readChar_plain {c : UInt8} (h : IsPlain c) (s : Bytes) :
    readChar (c :: s) = some (c.toNat, s) := by
  obtain ⟨hquote, hback, hlow⟩ := h
  rw [readChar, if_neg (by rintro (h | h); exacts [hquote h, by omega]), if_neg hback]

theorem readChar_backslash (s : Bytes) : readChar (92 :: s) = readEscape s := rfl

theorem readEscape_short {e : UInt8} (h : e ≠ 117) (s : Bytes) :
    readEscape (e :: s) = (shortEscape e).map fun u => (u, s) := if_neg h

variable {u : Nat}

/-- What one character takes, and that a quote or a control byte is none of it. -/
theorem readChar_some {s t : Bytes} (h : readChar s = some (u, t)) :
    (∃ c, IsPlain c ∧ s = c :: t ∧ u = c.toNat) ∨
    (∃ e, e ≠ 117 ∧ s = 92 :: e :: t ∧ shortEscape e = some u) ∨
    ∃ a b c d, s = 92 :: 117 :: a :: b :: c :: d :: t ∧ hexWord a b c d = some u := by
  cases s with
  | nil => cases h
  | cons c s =>
    rw [readChar] at h
    split at h
    · cases h
    · next hstop =>
      split at h
      · next hback =>
        subst hback
        match s, h with
        | e :: s, h =>
          rw [readEscape] at h
          split at h
          · next hu =>
            subst hu
            match s, h with
            | a :: b :: c :: d :: s, h =>
              obtain ⟨v, hv, heq⟩ := map_eq_some_iff.mp h
              cases heq
              exact .inr (.inr ⟨a, b, c, d, rfl, hv⟩)
          · next hu =>
            obtain ⟨v, hv, heq⟩ := map_eq_some_iff.mp h
            cases heq
            exact .inr (.inl ⟨e, hu, rfl, hv⟩)
      · next hback =>
        obtain ⟨rfl, rfl⟩ : c.toNat = u ∧ s = t := by simpa using h
        refine .inl ⟨c, ⟨fun h => hstop (.inl h), hback, ?_⟩, rfl, rfl⟩
        by_contra hlow
        exact hstop (.inr (by omega))

theorem length_lt_of_readChar {s t : Bytes} (h : readChar s = some (u, t)) :
    t.length < s.length := by
  rcases readChar_some h with ⟨c, -, rfl, -⟩ | ⟨e, -, rfl, -⟩ | ⟨a, b, c, d, rfl, -⟩ <;>
    simp only [length_cons] <;> omega

/-! ## §2 Bodies -/

/-- The code points of a whole body; every character shortens the text. -/
def decodeFuel : Nat → Bytes → Option (List Nat)
  | _, [] => some []
  | 0, _ :: _ => none
  | n + 1, c :: s => (readChar (c :: s)).bind fun r => (decodeFuel n r.2).map (r.1 :: ·)

def decode (s : Bytes) : Option (List Nat) := decodeFuel s.length s

/-- A reader that goes on with a shorter text needs no more fuel than the text is long. -/
theorem fuel_irrelevant {β : Type} {f : Nat → Bytes → β} (hnil : ∀ n m, f n [] = f m [])
    (hcons : ∀ n m c s, (∀ s', s'.length < (c :: s).length → f n s' = f m s') →
      f (n + 1) (c :: s) = f (m + 1) (c :: s)) :
    ∀ {n m : Nat} {s : Bytes}, s.length ≤ n → s.length ≤ m → f n s = f m s
  | n, m, [], _, _ => hnil n m
  | n + 1, m + 1, c :: s, hn, hm => by
    simp only [length_cons] at hn hm hcons
    exact hcons n m c s fun s' hs' => fuel_irrelevant hnil hcons (by omega) (by omega)

theorem decodeFuel_eq {n m : Nat} {s : Bytes} : s.length ≤ n → s.length ≤ m →
    decodeFuel n s = decodeFuel m s := by
  refine fuel_irrelevant (fun n m => by cases n <;> cases m <;> rfl) fun n m c s ih => ?_
  rw [decodeFuel, decodeFuel]
  cases hread : readChar (c :: s) with
  | none => rfl
  | some r => rw [bind_some, bind_some, ih _ (length_lt_of_readChar hread)]

theorem decode_cons (c : UInt8) (s : Bytes) :
    decode (c :: s) = (readChar (c :: s)).bind fun r => (decode r.2).map (r.1 :: ·) := by
  rw [decode, length_cons, decodeFuel]
  cases hread : readChar (c :: s) with
  | none => rfl
  | some r =>
    have hlt := length_lt_of_readChar hread
    rw [length_cons] at hlt
    rw [bind_some, bind_some, decode, decodeFuel_eq (by omega) le_rfl]

section Body

variable {s t tail : Bytes} {u : Nat} {us vs : List Nat}

theorem decode_of_readChar (h : readChar s = some (u, t)) : decode s = (decode t).map (u :: ·) := by
  cases s with
  | nil => cases h
  | cons c s => rw [decode_cons, h, bind_some]

theorem readChar_append (h : readChar s = some (u, t)) :
    readChar (s ++ tail) = some (u, t ++ tail) := by
  rcases readChar_some h with ⟨c, hc, rfl, rfl⟩ | ⟨e, he, rfl, hu⟩ | ⟨a, b, c, d, rfl, hu⟩
  · exact readChar_plain hc _
  · rw [cons_append, cons_append, readChar_backslash, readEscape_short he, hu]
    rfl
  · show (hexWord a b c d).map _ = _
    rw [hu]
    rfl

/-- Induction over the characters of a body. -/
theorem decode_induct {P : Bytes → List Nat → Prop} (nil : P [] [])
    (char : ∀ {s t u us}, readChar s = some (u, t) → decode t = some us → P t us → P s (u :: us)) :
    ∀ {s us}, decode s = some us → P s us := by
  intro s
  induction hn : s.length using Nat.strong_induction_on generalizing s with
  | _ n ih =>
    intro us h
    cases s with
    | nil =>
      cases h
      exact nil
    | cons c s =>
      rw [decode_cons] at h
      obtain ⟨⟨u, t⟩, hread, h⟩ := bind_eq_some_iff.mp h
      obtain ⟨us, hus, rfl⟩ := map_eq_some_iff.mp h
      exact char hread hus (ih t.length (hn ▸ length_lt_of_readChar hread) rfl hus)

theorem decode_append (hs : decode s = some us) (ht : decode t = some vs) :
    decode (s ++ t) = some (us ++ vs) := by
  refine decode_induct (P := fun s us => decode (s ++ t) = some (us ++ vs)) ht ?_ hs
  intro s t' u us hread _ ih
  rw [decode_of_readChar (readChar_append hread), ih]
  rfl

end Body

end SsoSystem.JsonText
