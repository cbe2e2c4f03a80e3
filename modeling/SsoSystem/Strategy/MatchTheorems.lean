/-
SsoSystem.Strategy.MatchTheorems — what the matchers of the functional and the
API strategy accept.

`wildcard_match` is the glob relation: its inner scan stops before the end of
the text, but the pattern behind a run of stars starts with a plain character,
so the end could not match anyway (`wildcardMatch_iff_glob`). `func_evaluate`
then answers with the first item whose pattern matches, except that it says
nothing about the empty function code, which `*` would match.
-/
import Mathlib.Data.List.Infix
import SsoSystem.PathPattern

namespace SsoSystem

open CMem Pattern List Json

/-! ## §1 Functional -/

theorem wildcardMatch_iff_glob (pattern text : Bytes) :
    wildcardMatch pattern text = true ↔ Glob star pattern text := by
  induction pattern generalizing text with
  | nil => rw [wildcardMatch, List.isEmpty_iff, glob_nil_iff]
  | cons c pattern ih =>
    by_cases hc : c = star
    · subst hc
      cases pattern with
      | nil =>
        refine iff_of_true (by simp [wildcardMatch]) ?_
        exact glob_star_iff.mpr ⟨text, [], (List.append_nil text).symm, .nil⟩
      | cons d pattern =>
        by_cases hd : d = star
        · subst hd
          rw [glob_star_star_iff, ← ih]
          simp [wildcardMatch]
        · -- the rest starts with a plain character, so it never matches the empty end
          have hscan : wildcardMatch (star :: d :: pattern) text =
              text.tails.any fun t => !t.isEmpty && wildcardMatch (d :: pattern) t := by
            conv_lhs => rw [wildcardMatch.eq_def]
            simp [hd]
          rw [hscan, List.any_eq_true, glob_star_iff]
          constructor
          · rintro ⟨t, ht, hmatch⟩
            obtain ⟨filling, rfl⟩ := (List.mem_tails _ _).mp ht
            exact ⟨filling, t, rfl, (ih t).mp (Bool.and_elim_right hmatch)⟩
          · rintro ⟨filling, rest, rfl, hrest⟩
            obtain ⟨rest', rfl, -⟩ := (glob_char_iff hd).mp hrest
            refine ⟨d :: rest', (List.mem_tails _ _).mpr (List.suffix_append _ _), ?_⟩
            simpa using (ih _).mpr hrest
    · rw [glob_char_iff hc]
      cases text with
      | nil => simp [wildcardMatch, hc]
      | cons d text =>
        have hstep : wildcardMatch (c :: pattern) (d :: text) =
            (c == d && wildcardMatch pattern text) := by
          conv_lhs => rw [wildcardMatch.eq_def]
          simp [hc]
        rw [hstep, Bool.and_eq_true, beq_iff_eq, ih]
        constructor
        · rintro ⟨rfl, h⟩
          exact ⟨text, rfl, h⟩
        · rintro ⟨rest, heq, h⟩
          obtain ⟨rfl, rfl⟩ := List.cons.inj heq
          exact ⟨rfl, h⟩

/-- The answer of a rule list: the effect of the first item that matches, and
`SSO_ERR_NOT_FOUND` if none does. -/
def DecidedByFirst {α : Type} (items : List α) (isMatch : α → Prop) (isAllow : α → Bool)
    (answer : StrategyResult) : Prop :=
  (∃ before item after, items = before ++ item :: after ∧ (∀ i ∈ before, ¬ isMatch i) ∧
    isMatch item ∧ answer = (.ok, isAllow item)) ∨
  ((∀ i ∈ items, ¬ isMatch i) ∧ answer = (.notFound, false))

theorem decidedByFirst_map {α β : Type} {items : List α} {compile : α → β} {isMatch : β → Bool}
    {meant : α → Prop} (isAllow : β → Bool)
    (hmeant : ∀ i ∈ items, isMatch (compile i) = true ↔ meant i) :
    DecidedByFirst items meant (fun i => isAllow (compile i))
      (firstMatch isMatch isAllow (items.map compile)) := by
  rw [firstMatch, find?_map]
  cases hfind : items.find? (isMatch ∘ compile) with
  | none =>
    refine Or.inr ⟨fun i hi h => ?_, rfl⟩
    exact find?_eq_none.mp hfind i hi ((hmeant i hi).mpr h)
  | some item =>
    obtain ⟨hitem, before, after, rfl, hbefore⟩ := find?_eq_some_iff_append.mp hfind
    refine Or.inl ⟨before, item, after, rfl, fun i hi h => ?_, ?_, rfl⟩
    · have hno := hbefore i hi
      rw [Function.comp_apply, (hmeant i (mem_append_left _ hi)).mpr h] at hno
      cases hno
    · exact (hmeant item (mem_append_right _ mem_cons_self)).mp hitem

/-- The pattern a functional rule item names. -/
def funcPattern (item : Json) : Bytes :=
  (Json.getStr (Json.objGet (some item) (lit "code"))).getD []

theorem getStr_not_mem_zero {v : Option Json} {s : Bytes} (h : Json.getStr v = some s) :
    (0 : UInt8) ∉ s := by
  unfold getStr at h
  split at h
  · cases h
    exact not_mem_cstr _
  · cases h

theorem funcItem_code {item : Json} (hlen : (funcPattern item).length < 126) :
    (funcItem item).code = funcPattern item := by
  show strlcpy 127 (funcPattern item) = funcPattern item
  refine strlcpy_eq_self ?_ (by omega)
  rw [funcPattern]
  cases h : getStr (objGet (some item) (lit "code")) with
  | none => exact not_mem_nil
  | some s => exact getStr_not_mem_zero h

/-- **Wildcards and first match.** The matcher is the glob relation; a rule list with
codes of less than 126 bytes answers a nonempty function code by its first matching
item, and says nothing about the empty one. -/
theorem functional_first_glob {V : Vendor} {rules : Bytes} {items : List Json}
    (hitems : ruleArray V rules (lit "functions") = some items)
    (hlen : ∀ item ∈ items, (funcPattern item).length < 126) :
    (∀ pattern code, wildcardMatch pattern code = true ↔ Glob star pattern code) ∧
    ∃ compiled, funcCompile V rules = some compiled ∧ ∀ ctx : EvalContext,
      (ctx.functionCode ≠ [] → DecidedByFirst items
        (fun item => Glob star (funcPattern item) ctx.functionCode)
        (fun item => effectIsAllow (Json.objGet (some item) (lit "effect")))
        (funcEvaluate compiled ctx)) ∧
      (ctx.functionCode = [] → funcEvaluate compiled ctx = (.notFound, false)) := by
  refine ⟨wildcardMatch_iff_glob, items.map funcItem, by rw [funcCompile, hitems]; rfl, ?_⟩
  intro ctx
  constructor
  · intro hcode
    rw [funcEvaluate, if_neg hcode]
    refine decidedByFirst_map FuncItem.isAllow fun item hitem => ?_
    rw [funcItem_code (hlen item hitem), wildcardMatch_iff_glob]
  · intro hcode
    rw [funcEvaluate, if_pos hcode]

/-- `{"functions":[{"code":"user:*"},{"code":"*","effect":"deny"}]}`. -/
def twoCodesRules : Json :=
  .obj [(lit "functions", .arr [.obj [(lit "code", .str (lit "user:*"))],
    .obj [(lit "code", .str (lit "*")), (lit "effect", .str (lit "deny"))]])]

def twoCodesVendor : Vendor := .ofTable [(lit "two codes", twoCodesRules)]

/-- A context whose union holds one text at its start. -/
def textContext (text : String) : EvalContext where
  userId := 1
  params := Block.zero.strlcpy 0 128 (lit text)
  environment := []
  fieldFilter := none
  recordOwned := false

theorem twoCodes_first_glob : ∃ compiled, funcCompile twoCodesVendor (lit "two codes") =
    some compiled ∧ funcEvaluate compiled (textContext "user:read") = (.ok, true) ∧
    DecidedByFirst ((Json.getArr (Json.objGet (some twoCodesRules) (lit "functions"))).getD [])
      (fun item => Glob star (funcPattern item) (textContext "user:read").functionCode)
      (fun item => effectIsAllow (Json.objGet (some item) (lit "effect")))
      (funcEvaluate compiled (textContext "user:read")) := by
  obtain ⟨-, compiled, hcompiled, hanswer⟩ :=
    @functional_first_glob twoCodesVendor (lit "two codes") _ rfl (by decide +kernel)
  refine ⟨compiled, hcompiled, ?_, (hanswer _).1 (by decide +kernel)⟩
  cases hcompiled
  decide +kernel

/-- The pattern `*` matches the empty function code, and the strategy says nothing. -/
theorem emptyCode_unanswered : ∃ compiled,
    funcCompile twoCodesVendor (lit "two codes") = some compiled ∧
    (textContext "").functionCode = [] ∧
    (∃ item ∈ (Json.getArr (Json.objGet (some twoCodesRules) (lit "functions"))).getD [],
      Glob star (funcPattern item) []) ∧
    funcEvaluate compiled (textContext "") = (.notFound, false) := by
  refine ⟨_, rfl, by decide +kernel, ?_, by decide +kernel⟩
  refine ⟨_, mem_cons_of_mem _ mem_cons_self, ?_⟩
  exact (wildcardMatch_iff_glob _ _).mp (by decide +kernel)

/-! ## §2 API -/

/-- What the documentation says: the segments match pairwise, and `**` stands for the
rest of the path. Whether the rest may be empty is left to `emptyRest`. -/
def segmentsMatch (emptyRest deep : Bool) : List PathSegment → List Bytes → Bool
  | [], path => if deep then emptyRest || !path.isEmpty else path.isEmpty
  | _ :: _, [] => false
  | seg :: segs, s :: path => seg.stands s && segmentsMatch emptyRest deep segs path

/-- Something follows a segment. -/
def follows (deep : Bool) (segs : List PathSegment) : Bool := deep || !segs.isEmpty

/-- What the matcher makes of the segments. Behind a `*` it skips a slash of the pattern
but none of the path (`skipped`), so the rest of the pattern meets the slash of the path:
a literal fails there, `:name` and `*` stand for nothing, `**` for everything. -/
def segmentsAccept (deep : Bool) : (skipped : Bool) → List PathSegment → List Bytes → Bool
  | false, [], path => if deep then !path.isEmpty else path.isEmpty
  | false, _ :: _, [] => false
  | false, .text s :: segs, t :: path => s == t && segmentsAccept deep false segs path
  | false, .param _ :: segs, _ :: path => segmentsAccept deep false segs path
  | false, .any :: segs, _ :: path => segmentsAccept deep (follows deep segs) segs path
  | true, [], _ => deep
  | true, segs, [] => segs == [.any] && !deep
  | true, .text _ :: _, _ :: _ => false
  | true, .param _ :: segs, path => segmentsAccept deep false segs path
  | true, .any :: segs, path => segmentsAccept deep (follows deep segs) segs path

/-! ### The matcher, character by character -/

theorem pathMatchLoop_turn (n : Nat) (c d : UInt8) (pattern path : Bytes) :
    pathMatchLoop (n + 1) (c :: pattern) (d :: path) =
      if c = star then
        match pattern with
        | e :: rest =>
          if e = star then true
          else pathMatchLoop n (if e = slash then rest else pattern)
            ((d :: path).dropWhile fun a => decide (a ≠ slash))
        | [] => pathMatchLoop n [] ((d :: path).dropWhile fun a => decide (a ≠ slash))
      else if c = colon then
        pathMatchLoop n (pattern.dropWhile fun a => decide (a ≠ slash))
          ((d :: path).dropWhile fun a => decide (a ≠ slash))
      else if c = d then pathMatchLoop n pattern path
      else false := rfl

theorem pathMatchLoop_fuel {n m : Nat} {pattern path : Bytes} (hn : pattern.length ≤ n)
    (hm : pattern.length ≤ m) : pathMatchLoop n pattern path = pathMatchLoop m pattern path := by
  induction n generalizing m pattern path with
  | zero =>
    obtain rfl := eq_nil_of_length_eq_zero (Nat.le_zero.mp hn)
    cases m <;> rfl
  | succ n ih =>
    cases pattern with
    | nil => cases m <;> rfl
    | cons c pattern =>
      obtain ⟨m, rfl⟩ : ∃ k, m = k + 1 := ⟨m - 1, by simp at hm; omega⟩
      cases path with
      | nil => rfl
      | cons d path =>
        rw [length_cons, Nat.add_le_add_iff_right] at hn hm
        have hdrop := length_dropWhile_le (fun a => decide (a ≠ slash)) pattern
        rw [pathMatchLoop_turn, pathMatchLoop_turn]
        split
        · cases pattern with
          | nil => exact ih (by simp) (by simp)
          | cons e rest =>
            simp only [length_cons] at hn hm
            dsimp only
            split
            · rfl
            · split
              · exact ih (by omega) (by omega)
              · exact ih (by simpa using hn) (by simpa using hm)
        · split
          · exact ih (by omega) (by omega)
          · split
            · exact ih hn hm
            · rfl

section Steps

variable {c d : UInt8} {pattern path : Bytes}

theorem pathMatch_nil : pathMatch [] path = path.isEmpty := by
  rfl

theorem pathMatch_nil_right :
    pathMatch pattern [] = (pattern.dropWhile fun a => decide (a = star)).isEmpty := by
  rw [pathMatch]
  cases pattern <;> simp [pathMatchLoop]

theorem pathMatch_char (hs : c ≠ star) (hp : c ≠ colon) :
    pathMatch (c :: pattern) (d :: path) = (c == d && pathMatch pattern path) := by
  rw [pathMatch, length_cons, pathMatchLoop_turn, if_neg hs, if_neg hp, ← pathMatch]
  by_cases h : c = d
  · simp [h]
  · simp [h]

theorem pathMatch_colon :
    pathMatch (colon :: pattern) (d :: path) =
      pathMatch (pattern.dropWhile fun a => decide (a ≠ slash))
        ((d :: path).dropWhile fun a => decide (a ≠ slash)) := by
  rw [pathMatch, length_cons, pathMatchLoop_turn, if_neg (by decide), if_pos rfl, pathMatch]
  exact pathMatchLoop_fuel (length_dropWhile_le _ _) le_rfl

theorem pathMatch_star_end :
    pathMatch [star] (d :: path) = ((d :: path).dropWhile fun a => decide (a ≠ slash)).isEmpty := by
  rw [pathMatch, length_singleton, pathMatchLoop_turn, if_pos rfl, ← pathMatch_nil, pathMatch]
  rfl

theorem pathMatch_star_star : pathMatch (star :: star :: pattern) (d :: path) = true := by
  rw [pathMatch, length_cons, pathMatchLoop_turn, if_pos rfl]
  exact if_pos rfl

theorem pathMatch_star_slash :
    pathMatch (star :: slash :: pattern) (d :: path) =
      pathMatch pattern ((d :: path).dropWhile fun a => decide (a ≠ slash)) := by
  rw [pathMatch, length_cons, pathMatchLoop_turn, if_pos rfl]
  show (if slash = star then true else _) = _
  rw [if_neg (by decide), if_pos rfl, pathMatch]
  exact pathMatchLoop_fuel (by simp) le_rfl

end Steps

/-! ### The matcher, segment by segment -/

section Segments

variable {deep : Bool} {segs : List PathSegment} {path : List Bytes}

theorem patternText_of_follows (h : follows deep segs = true) :
    ∃ rest, patternText deep segs = slash :: rest := by
  cases segs with
  | nil =>
    obtain rfl : deep = true := by simpa [follows] using h
    exact ⟨_, rfl⟩
  | cons seg segs => exact ⟨_, patternText_cons deep seg segs⟩

theorem patternText_of_not_follows (h : follows deep segs = false) :
    deep = false ∧ segs = [] ∧ patternText deep segs = [] := by
  cases segs with
  | nil =>
    obtain rfl : deep = false := by simpa [follows] using h
    exact ⟨rfl, rfl, rfl⟩
  | cons seg segs => simp [follows] at h

theorem pathMatch_slash (pattern path : Bytes) :
    pathMatch (slash :: pattern) (slash :: path) = pathMatch pattern path := by
  rw [pathMatch_char (by decide) (by decide), beq_self_eq_true, Bool.true_and]

/-- Behind a `*` the path is at its next slash and the pattern behind its own. -/
theorem pathMatch_star (deep : Bool) (segs : List PathSegment) (d : UInt8) (path : Bytes) :
    pathMatch (star :: patternText deep segs) (d :: path) =
      if follows deep segs then
        pathMatch (patternText deep segs).tail ((d :: path).dropWhile fun a => decide (a ≠ slash))
      else ((d :: path).dropWhile fun a => decide (a ≠ slash)).isEmpty := by
  cases hf : follows deep segs with
  | true =>
    obtain ⟨tail, htail⟩ := patternText_of_follows hf
    rw [htail, pathMatch_star_slash]
    rfl
  | false =>
    rw [(patternText_of_not_follows hf).2.2, pathMatch_star_end]
    rfl

variable {name : Bytes}

theorem pathMatch_param (hname : slash ∉ name) (deep : Bool)
    (segs : List PathSegment) (d : UInt8) (path : Bytes) :
    pathMatch (colon :: (name ++ patternText deep segs)) (d :: path) =
      pathMatch (patternText deep segs) ((d :: path).dropWhile fun a => decide (a ≠ slash)) := by
  rw [pathMatch_colon, dropWhile_segment hname (head?_patternText deep segs)]

/-- What the matcher does with a pattern, from a slash and from behind a skipped one. -/
def MatchesLike (deep : Bool) (segs : List PathSegment) (path : List Bytes) : Prop :=
  pathMatch (patternText deep segs) (joinSegments slash path) =
      segmentsAccept deep false segs path ∧ (follows deep segs = true →
      pathMatch (patternText deep segs).tail (joinSegments slash path) =
        segmentsAccept deep true segs path)

theorem matchesLike_nil (deep : Bool) (path : List Bytes) (hpath : SegmentsOk path) :
    MatchesLike deep [] path := by
  cases deep with
  | false =>
    refine ⟨?_, nofun⟩
    cases path <;> simp [patternText, pathMatch_nil, segmentsAccept]
  | true =>
    cases path with
    | nil => exact ⟨rfl, fun _ => rfl⟩
    | cons t path =>
      obtain ⟨d, rest, hrest, -⟩ := dropWhile_path (hpath t mem_cons_self)
        (head?_joinSegments slash path)
      constructor
      · rw [joinSegments_cons, hrest]
        show pathMatch (slash :: [star, star]) (slash :: d :: rest) = true
        rw [pathMatch_slash, pathMatch_star_star]
      · intro _
        rw [joinSegments_cons]
        exact pathMatch_star_star

theorem matchesLike_text {s : Bytes} (hs : (PathSegment.text s).WellFormed)
    (hpath : SegmentsOk path) (ih : ∀ path, SegmentsOk path → MatchesLike deep segs path) :
    MatchesLike deep (.text s :: segs) path := by
  obtain ⟨hne, hslash, hstar, hcolon⟩ := hs
  obtain ⟨c, s', rfl⟩ := exists_cons_of_ne_nil hne
  have hc : c ≠ slash := fun h => hslash (h ▸ mem_cons_self)
  have hc' : c ≠ star := fun h => hstar (h ▸ mem_cons_self)
  have hc'' : c ≠ colon := fun h => hcolon (h ▸ mem_cons_self)
  rw [MatchesLike, patternText_cons, tail_cons]
  cases path with
  | nil =>
    constructor
    · rfl
    · intro _
      rw [joinSegments_nil, pathMatch_nil_right]
      simp [PathSegment.written, hc', segmentsAccept]
  | cons t path =>
    obtain ⟨ht, hrest⟩ := forall_mem_cons.mp hpath
    rw [joinSegments_cons]
    constructor
    · rw [pathMatch_slash]
      have htext := matcher_text (s := c :: s') pathMatch_char (fun _ => rfl)
        (fun _ hstar => by simp [pathMatch_nil_right, hstar])
        (fun a ha => ⟨fun h => hslash (h ▸ ha), fun h => hstar (h ▸ ha), fun h => hcolon (h ▸ ha)⟩)
        ht.2 (head?_patternText deep segs)
        (head?_joinSegments slash path)
      rw [segmentsAccept, ← (ih path hrest).1]
      exact htext
    · intro _
      show pathMatch (c :: _) (slash :: _) = _
      rw [pathMatch_char hc' hc'', beq_eq_false_iff_ne.mpr hc]
      rfl

theorem matchesLike_param (hname : slash ∉ name) (hpath : SegmentsOk path)
    (ih : ∀ path, SegmentsOk path → MatchesLike deep segs path) :
    MatchesLike deep (.param name :: segs) path := by
  rw [MatchesLike, patternText_cons, tail_cons, PathSegment.written, cons_append]
  cases path with
  | nil => exact ⟨rfl, fun _ => rfl⟩
  | cons t path =>
    obtain ⟨ht, hrest⟩ := forall_mem_cons.mp hpath
    obtain ⟨d, rest, hpath', hdrop⟩ := dropWhile_path ht (head?_joinSegments slash path)
    constructor
    · rw [joinSegments_cons, pathMatch_slash, hpath', pathMatch_param hname, hdrop,
        (ih path hrest).1]
      rfl
    · intro _
      rw [joinSegments_cons, pathMatch_param hname, dropWhile_slash, ← joinSegments_cons,
        (ih (t :: path) hpath).1]
      rfl

theorem matchesLike_any
    (hpath : SegmentsOk path) (ih : ∀ path, SegmentsOk path → MatchesLike deep segs path) :
    MatchesLike deep (.any :: segs) path := by
  rw [MatchesLike, patternText_cons, tail_cons]
  show pathMatch (slash :: star :: patternText deep segs) _ = _ ∧
    (_ → pathMatch (star :: patternText deep segs) _ = _)
  cases path with
  | nil =>
    refine ⟨rfl, fun _ => ?_⟩
    rw [joinSegments_nil, pathMatch_nil_right, dropWhile_cons_of_pos (by decide)]
    cases hf : follows deep segs with
    | true =>
      obtain ⟨tail, htail⟩ := patternText_of_follows hf
      rw [htail]
      cases deep <;> cases segs <;> simp_all [follows, segmentsAccept, slash, star]
    | false =>
      obtain ⟨rfl, rfl, htext⟩ := patternText_of_not_follows hf
      rw [htext]
      rfl
  | cons t path =>
    obtain ⟨ht, hrest⟩ := forall_mem_cons.mp hpath
    obtain ⟨d, rest, hpath', hdrop⟩ := dropWhile_path ht (head?_joinSegments slash path)
    rw [joinSegments_cons, pathMatch_slash, hpath', pathMatch_star, pathMatch_star, hdrop,
      dropWhile_slash, ← hpath', ← joinSegments_cons]
    cases hf : follows deep segs with
    | true =>
      rw [if_pos rfl, if_pos rfl, (ih path hrest).2 hf, (ih (t :: path) hpath).2 hf,
        segmentsAccept, segmentsAccept, hf]
      · exact ⟨rfl, fun _ => rfl⟩
      · exact cons_ne_nil t path
    | false =>
      obtain ⟨rfl, rfl, -⟩ := patternText_of_not_follows hf
      refine ⟨?_, fun _ => rfl⟩
      cases path <;> rfl

theorem matchesLike (hsegs : ∀ seg ∈ segs, seg.WellFormed) (hpath : SegmentsOk path) :
    MatchesLike deep segs path := by
  induction segs generalizing path with
  | nil => exact matchesLike_nil deep path hpath
  | cons seg segs ih =>
    obtain ⟨hseg, hrest⟩ := forall_mem_cons.mp hsegs
    have ih : ∀ path, SegmentsOk path → MatchesLike deep segs path := fun path => ih hrest
    cases seg with
    | text s => exact matchesLike_text hseg hpath ih
    | any => exact matchesLike_any hpath ih
    | param name => exact matchesLike_param hseg hpath ih

end Segments

/-! ### The documented meaning -/

/-- The path does not reach a `*` that something follows, nor, where `**` may stand for nothing,
does it end right before the `**`. -/
def StarUnreached (emptyRest deep : Bool) : List PathSegment → List Bytes → Prop
  | [], path => ¬ (deep = true ∧ emptyRest = true ∧ path = [])
  | _ :: _, [] => True
  | .any :: segs, _ :: _ => follows deep segs = false
  | .text s :: segs, t :: path => s = t → StarUnreached emptyRest deep segs path
  | .param _ :: segs, _ :: path => StarUnreached emptyRest deep segs path

theorem segmentsAccept_eq (emptyRest deep : Bool) (segs : List PathSegment) (path : List Bytes)
    (h : StarUnreached emptyRest deep segs path) :
    segmentsAccept deep false segs path = segmentsMatch emptyRest deep segs path := by
  induction segs generalizing path with
  | nil =>
    revert h
    cases deep <;> cases emptyRest <;> cases path <;>
      simp [segmentsAccept, segmentsMatch, StarUnreached]
  | cons seg segs ih =>
    cases path with
    | nil => simp [segmentsAccept, segmentsMatch]
    | cons t path =>
      cases seg with
      | text s =>
        simp only [segmentsAccept, segmentsMatch, PathSegment.stands]
        by_cases hs : s = t
        · rw [ih path (h hs)]
        · rw [beq_eq_false_iff_ne.mpr hs, Bool.false_and, Bool.false_and]
      | param name => exact ih path h
      | any =>
        -- nothing follows the star, so both ask whether the path ends with this segment
        obtain ⟨rfl, rfl, -⟩ := patternText_of_not_follows h
        simp [segmentsAccept, segmentsMatch, follows, PathSegment.stands]

/-- **Where path matching follows its documentation**: for every pattern and every path that does
not reach a `*` with something behind it, and whichever way `**` is read. -/
theorem pathMatch_documented (emptyRest : Bool) (p : PathPattern) (path : UrlPath)
    (h : StarUnreached emptyRest p.deep p.segs path.segs) :
    pathMatch p.text path.text = true ↔
      segmentsMatch emptyRest p.deep p.segs path.segs = true := by
  rw [PathPattern.text, UrlPath.text, (matchesLike p.ok path.ok).1, segmentsAccept_eq _ _ _ _ h]

/-- `/users/:id/**`. -/
def deepPattern : PathPattern where
  segs := [.text (lit "users"), .param (lit "id")]
  deep := true
  ok := by decide +kernel

/-- `/users/*/posts`. -/
def innerStarPattern : PathPattern where
  segs := [.text (lit "users"), .any, .text (lit "posts")]
  deep := false
  ok := by decide +kernel

/-- `/users/7/posts`. -/
def postsPath : UrlPath where
  segs := [lit "users", lit "7", lit "posts"]
  ok := by
    unfold SegmentsOk
    decide +kernel

/-- `:id` stands for the user and `**` for their posts. -/
theorem deepPattern_documented : pathMatch deepPattern.text postsPath.text = true :=
  (pathMatch_documented true deepPattern postsPath (by
    simp [StarUnreached, deepPattern, postsPath])).mpr (by decide +kernel)

/-- A `*` in the middle does not match the segment it stands for. -/
theorem innerStar_unmatched :
    innerStarPattern.text = lit "/users/*/posts" ∧ postsPath.text = lit "/users/7/posts" ∧
    (∀ emptyRest, segmentsMatch emptyRest innerStarPattern.deep innerStarPattern.segs
      postsPath.segs = true) ∧ pathMatch innerStarPattern.text postsPath.text = false := by
  decide +kernel

end SsoSystem
