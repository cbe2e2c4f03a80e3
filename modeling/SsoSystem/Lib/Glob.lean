/-
SsoSystem.Lib.Glob — patterns with a star, and texts made of segments.

`Glob star` is the meaning of a pattern in which each `star` stands for any
text: one constructor for each kind of pattern element, and one iff lemma for
each constructor. `joinSegments` is the text of a path, every segment behind
its separator; the lemmas say how a scan to the next separator moves over it.
-/
import Mathlib.Data.List.TakeWhile
import Mathlib.Tactic.Common

namespace SsoSystem.Pattern

open List

variable {α : Type}

/-! ## §1 Stars -/

/-- The text is the pattern with every star replaced by some text. -/
inductive Glob (star : α) : List α → List α → Prop
  | nil : Glob star [] []
  | char {c : α} {pattern text : List α} : c ≠ star → Glob star pattern text →
      Glob star (c :: pattern) (c :: text)
  | star {pattern text : List α} (filling : List α) : Glob star pattern text →
      Glob star (star :: pattern) (filling ++ text)

variable {star c : α} {pattern text : List α}

@[simp] theorem glob_nil_iff : Glob star [] text ↔ text = [] := by
  constructor
  · rintro ⟨⟩
    rfl
  · rintro rfl
    exact .nil

theorem glob_char_iff (hc : c ≠ star) :
    Glob star (c :: pattern) text ↔ ∃ rest, text = c :: rest ∧ Glob star pattern rest := by
  constructor
  · intro h
    cases h with
    | char _ h => exact ⟨_, rfl, h⟩
    | star _ _ => exact absurd rfl hc
  · rintro ⟨rest, rfl, h⟩
    exact .char hc h

theorem glob_star_iff : Glob star (star :: pattern) text ↔
    ∃ filling rest, text = filling ++ rest ∧ Glob star pattern rest := by
  constructor
  · intro h
    cases h with
    | char hc _ => exact absurd rfl hc
    | star filling h => exact ⟨filling, _, rfl, h⟩
  · rintro ⟨filling, rest, rfl, h⟩
    exact .star filling h

theorem glob_star_star_iff :
    Glob star (star :: star :: pattern) text ↔ Glob star (star :: pattern) text := by
  rw [glob_star_iff]
  constructor
  · rintro ⟨filling, rest, rfl, h⟩
    obtain ⟨more, rest, rfl, hrest⟩ := glob_star_iff.mp h
    rw [← append_assoc]
    exact .star _ hrest
  · intro h
    exact ⟨[], text, rfl, h⟩

/-! ## §2 Segments -/

/-- The segments, each behind a separator. -/
def joinSegments (sep : α) (segs : List (List α)) : List α := segs.flatMap (sep :: ·)

section Segments

variable {sep : α} {seg : List α} {segs : List (List α)}

@[simp] theorem joinSegments_nil : joinSegments sep ([] : List (List α)) = [] := rfl

@[simp] theorem joinSegments_cons :
    joinSegments sep (seg :: segs) = sep :: (seg ++ joinSegments sep segs) := by
  rw [joinSegments, flatMap_cons, cons_append, ← joinSegments]

theorem head?_joinSegments (sep : α) (segs : List (List α)) :
    (joinSegments sep segs).head? ∈ [none, some sep] := by
  cases segs with
  | nil => simp
  | cons seg segs => simp

/-- A scan to the next separator passes one segment. -/
theorem dropWhile_segment [DecidableEq α] (hseg : sep ∉ seg) {rest : List α}
    (hrest : rest.head? ∈ [none, some sep]) :
    (seg ++ rest).dropWhile (fun a => decide (a ≠ sep)) = rest := by
  have hall : ∀ a ∈ seg, decide (a ≠ sep) = true := fun a ha =>
    decide_eq_true fun h => hseg (h ▸ ha)
  rw [dropWhile_append_of_pos hall]
  cases rest with
  | nil => rfl
  | cons a rest =>
    obtain rfl : a = sep := by simpa using hrest
    exact dropWhile_cons_of_neg (by simp)

end Segments

end SsoSystem.Pattern
