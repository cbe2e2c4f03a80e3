/-
SsoSystem.PathPattern — path patterns and paths as lists of segments.

The API rules and the HTTP routes both match a path against a pattern, each
with a matcher of its own that works on characters. What the two matchers are
meant to do is said on segments: a pattern is a list of literal, `*` and
`:name` segments with an optional final `**`, a path is a list of nonempty
segments, and both are written with a slash before every segment.
-/
import SsoSystem.Lib.Glob
import SsoSystem.Strategy.Items

namespace SsoSystem

open CMem Pattern List

/-! ## §1 Segments -/

/-- A segment of a path pattern, other than a final `**`. -/
inductive PathSegment where
  | text (s : Bytes)
  /-- `*` -/
  | any
  /-- `:name` -/
  | param (name : Bytes)
  deriving DecidableEq, Repr

namespace PathSegment

/-- The segment as it is written. -/
def written : PathSegment → Bytes
  | .text s => s
  | .any => [star]
  | .param name => colon :: name

/-- A literal is not empty and has none of the special characters. -/
def WellFormed : PathSegment → Prop
  | .text s => s ≠ [] ∧ slash ∉ s ∧ star ∉ s ∧ colon ∉ s
  | .any => True
  | .param name => slash ∉ name

instance (seg : PathSegment) : Decidable seg.WellFormed := by
  cases seg <;> dsimp only [WellFormed] <;> infer_instance

/-- Does it stand for this segment of a path? -/
def stands : PathSegment → Bytes → Bool
  | .text s, t => s == t
  | .any, _ => true
  | .param _, _ => true

end PathSegment

/-- A pattern: its segments, and whether `**` follows them. -/
structure PathPattern where
  segs : List PathSegment
  deep : Bool
  ok : ∀ seg ∈ segs, seg.WellFormed

/-- Segments of a path: not empty, and without a slash. -/
def SegmentsOk (path : List Bytes) : Prop := ∀ s ∈ path, s ≠ [] ∧ slash ∉ s

/-- A path without empty segments. -/
structure UrlPath where
  segs : List Bytes
  ok : SegmentsOk segs

def UrlPath.text (path : UrlPath) : Bytes := joinSegments slash path.segs

/-- The text of a pattern. -/
def patternText (deep : Bool) (segs : List PathSegment) : Bytes :=
  joinSegments slash (segs.map PathSegment.written) ++ if deep then [slash, star, star] else []

def PathPattern.text (p : PathPattern) : Bytes := patternText p.deep p.segs

/-! ## §2 Texts -/

@[simp] theorem patternText_cons (deep : Bool) (seg : PathSegment) (segs : List PathSegment) :
    patternText deep (seg :: segs) = slash :: (seg.written ++ patternText deep segs) := by
  simp [patternText]

theorem head?_patternText (deep : Bool) (segs : List PathSegment) :
    (patternText deep segs).head? ∈ [none, some slash] := by
  cases segs with
  | nil => cases deep <;> simp [patternText]
  | cons seg segs => simp

/-- A scan over one segment of a path. -/
theorem dropWhile_path {t tail : Bytes} (ht : t ≠ [] ∧ slash ∉ t)
    (htail : tail.head? ∈ [none, some slash]) :
    ∃ d rest, t ++ tail = d :: rest ∧
      (d :: rest).dropWhile (fun a => decide (a ≠ slash)) = tail := by
  obtain ⟨d, t, rfl⟩ := exists_cons_of_ne_nil ht.1
  exact ⟨d, t ++ tail, rfl, dropWhile_segment ht.2 htail⟩

theorem dropWhile_slash (rest : Bytes) :
    (slash :: rest).dropWhile (fun a => decide (a ≠ slash)) = slash :: rest :=
  dropWhile_cons_of_neg (by simp)

/-- A literal against a segment, for a matcher that compares the other characters one by one:
both end at the same place or the match fails. -/
theorem matcher_text {M : Bytes → Bytes → Bool}
    (hchar : ∀ {c d p q}, c ≠ star → c ≠ colon → M (c :: p) (d :: q) = (c == d && M p q))
    (hleft : ∀ {d q}, d ≠ slash → M [] (d :: q) = false)
    (hright : ∀ {c p}, c ≠ slash → c ≠ star → M (c :: p) [] = false) {s t rest rest' : Bytes}
    (hs : ∀ c ∈ s, c ≠ slash ∧ c ≠ star ∧ c ≠ colon) (ht : slash ∉ t)
    (hrest : rest.head? ∈ [none, some slash]) (hrest' : rest'.head? ∈ [none, some slash]) :
    M (s ++ rest) (t ++ rest') = (s == t && M rest rest') := by
  induction s generalizing t with
  | nil =>
    cases t with
    | nil => simp
    | cons d t =>
      have hd : slash ≠ d := fun h => ht (h ▸ mem_cons_self)
      cases rest with
      | nil => exact hleft hd.symm
      | cons c rest =>
        obtain rfl : c = slash := by simpa using hrest
        rw [nil_append, cons_append, hchar (by decide) (by decide), beq_eq_false_iff_ne.mpr hd]
        rfl
  | cons c s ih =>
    obtain ⟨⟨hcslash, hcstar, hccolon⟩, hs⟩ := forall_mem_cons.mp hs
    cases t with
    | nil =>
      cases rest' with
      | nil => exact hright hcslash hcstar
      | cons d rest' =>
        obtain rfl : d = slash := by simpa using hrest'
        rw [cons_append, nil_append, hchar hcstar hccolon, beq_eq_false_iff_ne.mpr hcslash]
        rfl
    | cons d t =>
      rw [cons_append, cons_append, hchar hcstar hccolon,
        ih hs (fun h => ht (mem_cons_of_mem _ h)), ← Bool.and_assoc]
      rfl

end SsoSystem
