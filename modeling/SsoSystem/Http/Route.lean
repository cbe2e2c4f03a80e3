/-
SsoSystem.Http.Route — `match_route` (src/handlers_common.c), which decides the
handler of a request and whether it needs authentication.

The loop and its tail call behind a `*` are one loop over the rest of the
pattern and the rest of the path; every turn shortens the pattern. The
captures of `:name` are not stored anywhere in the source.
-/
import SsoSystem.Lib.Loop
import SsoSystem.PathPattern

namespace SsoSystem

open CMem Pattern Loop List

/-! ## §1 The matcher -/

/-- The end of `match_route`: one slash is forgiven on either side. -/
def routeEnd (pattern path : Bytes) : Bool :=
  let pattern := if pattern.head? = some slash ∧ path = [] then pattern.tail else pattern
  let path := if path.head? = some slash ∧ pattern = [] then path.tail else path
  pattern.isEmpty && path.isEmpty

/-- One turn of the loop. -/
def routeTurn : Bytes × Bytes → Bool ⊕ (Bytes × Bytes)
  | (c :: pattern, d :: path) =>
    if c = colon then
      .inr (pattern.dropWhile fun a => decide (a ≠ slash),
        (d :: path).dropWhile fun a => decide (a ≠ slash))
    else if c = star then
      if pattern = [] then .inl true
      else .inr (pattern, (d :: path).dropWhile fun a => decide (a ≠ slash))
    else if c = d then .inr (pattern, path)
    else .inl false
  | (pattern, path) => .inl (routeEnd pattern path)

theorem routeTurn_cons (c d : UInt8) (pattern path : Bytes) :
    routeTurn (c :: pattern, d :: path) =
      if c = colon then
        .inr (pattern.dropWhile fun a => decide (a ≠ slash),
          (d :: path).dropWhile fun a => decide (a ≠ slash))
      else if c = star then
        if pattern = [] then .inl true
        else .inr (pattern, (d :: path).dropWhile fun a => decide (a ≠ slash))
      else if c = d then .inr (pattern, path)
      else .inl false := rfl

theorem routeTurn_decreases {s s' : Bytes × Bytes} (h : routeTurn s = .inr s') :
    s'.1.length < s.1.length := by
  obtain ⟨pattern, path⟩ := s
  match pattern, path, h with
  | c :: pattern, d :: path, h =>
    have hdrop := length_dropWhile_le (fun a => decide (a ≠ slash)) pattern
    rw [routeTurn_cons] at h
    split_ifs at h <;> cases h
    · exact Nat.lt_succ_of_le hdrop
    · exact Nat.lt_succ_self _
    · exact Nat.lt_succ_self _

def routeLoop : While (Bytes × Bytes) Bool where
  body := routeTurn
  size := fun s => s.1.length
  decreases := routeTurn_decreases

/-- `match_route`. -/
def matchRoute (pattern path : Bytes) : Bool := routeLoop.run (pattern, path)

/-! ## §2 Its steps -/

section Steps

variable {c d : UInt8} {pattern path : Bytes}

theorem matchRoute_nil : matchRoute [] path = routeEnd [] path := While.run_of_inl rfl

theorem matchRoute_nil_right : matchRoute pattern [] = routeEnd pattern [] := by
  cases pattern <;> exact While.run_of_inl rfl

theorem matchRoute_char (hs : c ≠ star) (hp : c ≠ colon) :
    matchRoute (c :: pattern) (d :: path) = (c == d && matchRoute pattern path) := by
  have hturn := routeTurn_cons c d pattern path
  rw [if_neg hp, if_neg hs] at hturn
  by_cases h : c = d
  · rw [if_pos h] at hturn
    rw [beq_iff_eq.mpr h, Bool.true_and]
    exact While.run_of_inr hturn
  · rw [if_neg h] at hturn
    rw [beq_eq_false_iff_ne.mpr h, Bool.false_and]
    exact While.run_of_inl hturn

theorem matchRoute_colon :
    matchRoute (colon :: pattern) (d :: path) =
      matchRoute (pattern.dropWhile fun a => decide (a ≠ slash))
        ((d :: path).dropWhile fun a => decide (a ≠ slash)) :=
  While.run_of_inr rfl

theorem matchRoute_star_end : matchRoute [star] (d :: path) = true := While.run_of_inl rfl

theorem matchRoute_star (hne : pattern ≠ []) :
    matchRoute (star :: pattern) (d :: path) =
      matchRoute pattern ((d :: path).dropWhile fun a => decide (a ≠ slash)) := by
  have hturn := routeTurn_cons star d pattern path
  rw [if_neg (by decide), if_pos rfl, if_neg hne] at hturn
  exact While.run_of_inr hturn

theorem matchRoute_slash :
    matchRoute (slash :: pattern) (slash :: path) = matchRoute pattern path := by
  rw [matchRoute_char (by decide) (by decide), beq_self_eq_true, Bool.true_and]

end Steps

/-! ## §3 Segments -/

/-- A pattern of the route table. -/
structure RoutePattern where
  segs : List PathSegment
  ok : ∀ seg ∈ segs, seg.WellFormed

def RoutePattern.text (p : RoutePattern) : Bytes := patternText false p.segs

/-- The segments match pairwise; a `*` in last position stands for one or more. -/
def routeMatches : List PathSegment → List Bytes → Bool
  | [], path => path.isEmpty
  | _ :: _, [] => false
  | seg :: segs, s :: path =>
    if seg = .any ∧ segs = [] then true else seg.stands s && routeMatches segs path

/-- The path, and the slash that may stand behind it. -/
def routePath (trailing : Bool) (path : List Bytes) : Bytes :=
  joinSegments slash path ++ if trailing then [slash] else []

theorem head?_routePath (trailing : Bool) (path : List Bytes) :
    (routePath trailing path).head? ∈ [none, some slash] := by
  cases path with
  | nil => cases trailing <;> simp [routePath]
  | cons s path => simp [routePath]

theorem routePath_cons (trailing : Bool) (s : Bytes) (path : List Bytes) :
    routePath trailing (s :: path) = slash :: (s ++ routePath trailing path) := by
  simp [routePath]

theorem matchRoute_short {seg : PathSegment} (hseg : seg.WellFormed) (segs : List PathSegment)
    (trailing : Bool) :
    matchRoute (patternText false (seg :: segs)) (routePath trailing []) = false := by
  have hhead : ∃ c rest, seg.written ++ patternText false segs = c :: rest ∧ c ≠ slash := by
    cases seg with
    | text s =>
      obtain ⟨hne, hslash, -⟩ := hseg
      obtain ⟨c, s, rfl⟩ := exists_cons_of_ne_nil hne
      exact ⟨c, _, rfl, fun h => hslash (h ▸ mem_cons_self)⟩
    | any => exact ⟨star, _, rfl, by decide⟩
    | param name => exact ⟨colon, _, rfl, by decide⟩
  obtain ⟨c, rest, hwritten, hc⟩ := hhead
  rw [patternText_cons, hwritten]
  cases trailing with
  | false =>
    show matchRoute _ [] = false
    simp [matchRoute_nil_right, routeEnd]
  | true =>
    show matchRoute _ [slash] = false
    rw [matchRoute_slash]
    simp [matchRoute_nil_right, routeEnd, hc]

theorem matchRoute_segments {segs : List PathSegment} {path : List Bytes}
    (hsegs : ∀ seg ∈ segs, seg.WellFormed) (hpath : SegmentsOk path) (trailing : Bool) :
    matchRoute (patternText false segs) (routePath trailing path) = routeMatches segs path := by
  induction segs generalizing path with
  | nil =>
    show matchRoute [] _ = _
    rw [matchRoute_nil]
    cases path with
    | nil => cases trailing <;> rfl
    | cons s path =>
      have hs := (hpath s mem_cons_self).1
      simp [routePath_cons, routeEnd, routeMatches, hs]
  | cons seg segs ih =>
    obtain ⟨hseg, hrest⟩ := forall_mem_cons.mp hsegs
    cases path with
    | nil => exact matchRoute_short hseg segs trailing
    | cons t path =>
      obtain ⟨ht, hpath⟩ := forall_mem_cons.mp hpath
      obtain ⟨d, rest, htext, hdrop⟩ := dropWhile_path ht (head?_routePath trailing path)
      rw [patternText_cons, routePath_cons, matchRoute_slash, routeMatches, ← ih hrest hpath]
      cases seg with
      | text s =>
        obtain ⟨-, hslash, hstar, hcolon⟩ := hseg
        rw [if_neg (by simp)]
        exact matcher_text matchRoute_char (fun h => by simp [matchRoute_nil, routeEnd, h])
          (fun h _ => by simp [matchRoute_nil_right, routeEnd, h])
          (fun a ha =>
            ⟨fun h => hslash (h ▸ ha), fun h => hstar (h ▸ ha), fun h => hcolon (h ▸ ha)⟩)
          ht.2 (head?_patternText false segs) (head?_routePath trailing path)
      | param name =>
        rw [if_neg (by simp), htext]
        show matchRoute (colon :: (name ++ _)) _ = _
        rw [matchRoute_colon, dropWhile_segment hseg (head?_patternText false segs), hdrop]
        rfl
      | any =>
        rw [htext]
        show matchRoute (star :: patternText false segs) _ = _
        cases segs with
        | nil => exact matchRoute_star_end
        | cons next segs =>
          rw [matchRoute_star (by simp), hdrop, if_neg (by simp)]
          rfl

/-- **Route matching**, for every pattern of literal, `*` and `:name` segments and every
path of nonempty segments, with or without a trailing slash. -/
theorem matchRoute_iff (p : RoutePattern) (path : UrlPath) (trailing : Bool) :
    matchRoute p.text (path.text ++ if trailing then [slash] else []) = true ↔
      routeMatches p.segs path.segs = true := by
  rw [RoutePattern.text, UrlPath.text, ← routePath, matchRoute_segments p.ok path.ok]

end SsoSystem
