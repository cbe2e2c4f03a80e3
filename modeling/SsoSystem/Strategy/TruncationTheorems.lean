/-
SsoSystem.Strategy.TruncationTheorems — rule texts and request texts that are
longer than the buffers they are compared in.

A compiled rule and the evaluation context each hold a cut copy of the text
they were given, and the two buffers are of different sizes: a role name keeps
62 bytes in the rule and 63 in the request, a method 14 and 7, a path 254 and
1023. Nothing rejects a text that does not fit.
-/
import SsoSystem.Lib.Cut
import SsoSystem.Permission.Check
import SsoSystem.Strategy.LabelTheorems
import SsoSystem.Strategy.MatchTheorems

namespace SsoSystem

open CMem Pattern List

/-- The plain beginning of a pattern that does not fit as a whole leaves room in the buffer. -/
theorem length_lt_of_exact {accepts : Bytes → Bytes → Bool} {plain : UInt8 → Prop} {m n : Nat}
    {w s : Bytes} {x : UInt8} (hM : PlainMatcher accepts plain) (hw : ∀ c ∈ w, plain c)
    (hnul : (0 : UInt8) ∉ w) (hm : 0 < m) (hmn : m < n) (hlong : m < (w ++ s).length) (hx0 : x ≠ 0)
    (hx : accepts s [] = true → s ≠ [] → accepts s [x] = true)
    (hcut : ∀ q, (0 : UInt8) ∉ q → q ≠ [] →
      accepts ((w ++ s).take m) (q.take n) = accepts (w ++ s) q) : w.length < m := by
  by_contra hle
  refine hle (hM.length_lt_of_cut hw hmn hlong hx fun q hq => ?_)
  have hnulw : (0 : UInt8) ∉ w.take m := fun h => hnul (mem_of_mem_take h)
  simp only [mem_cons, not_mem_nil, or_false] at hq
  rcases hq with rfl | rfl
  · refine hcut _ hnulw fun h => ?_
    have hlen := congrArg length h
    rw [length_take, length_nil] at hlen
    omega
  · exact hcut _ (by simp [hnulw, hx0.symm]) (by simp)

/-! ## §1 Function codes -/

theorem plainMatcher_wildcardMatch : PlainMatcher wildcardMatch (· ≠ star) where
  nil_iff := by
    intro t
    rw [wildcardMatch_iff_glob, glob_nil_iff]
  cons_iff := by
    intro c s q hc
    simp only [wildcardMatch_iff_glob, glob_char_iff hc]

section Function

variable {m n : Nat} {w rest text : Bytes}

theorem mem_of_glob {pattern : Bytes} (h : Glob star pattern text) {c : UInt8} (hc : c ∈ pattern)
    (hne : c ≠ star) : c ∈ text := by
  induction h with
  | nil => cases hc
  | char _ _ ih =>
    rcases mem_cons.mp hc with rfl | hc
    · exact mem_cons_self
    · exact mem_cons_of_mem _ (ih hc)
  | star filling _ ih =>
    rcases mem_cons.mp hc with rfl | hc
    · exact absurd rfl hne
    · exact mem_append_right _ (ih hc)

theorem glob_stars (hrest : ∀ c ∈ rest, c = star) : Glob star (star :: rest) text := by
  induction rest with
  | nil => exact glob_star_iff.mpr ⟨text, [], (append_nil text).symm, .nil⟩
  | cons c rest ih =>
    rw [forall_mem_cons] at hrest
    rw [hrest.1, glob_star_star_iff]
    exact ih hrest.2

theorem exists_glob (pattern : Bytes) : Glob star pattern (pattern.filter (· ≠ star)) := by
  induction pattern with
  | nil => exact .nil
  | cons c pattern ih =>
    by_cases hc : c = star
    · subst hc
      exact glob_star_iff.mpr ⟨[], _, rfl, by simpa using ih⟩
    · rw [filter_cons_of_pos (by simpa using hc)]
      exact .char hc ih

/-- A function code is compared in full whatever is asked: a code without a star that fits,
or one that ends in its stars, with the first of them in the buffer. -/
def WholeCode (m : Nat) (r : Bytes) : Prop :=
  (star ∉ r ∧ r.length ≤ m) ∨
  ∃ w stars, star ∉ w ∧ (∀ c ∈ stars, c = star) ∧ r = w ++ star :: stars ∧ w.length < m

theorem exists_byte_ne (c : UInt8) : ∃ x : UInt8, x ≠ 0 ∧ x ≠ c := by
  by_cases hc : c = 1
  · exact ⟨2, by decide, by rw [hc]; decide⟩
  · exact ⟨1, by decide, Ne.symm hc⟩

/-- Behind a star only stars: a plain byte there is missed in a long request, whose filling
alone fills the buffer. -/
theorem stars_of_cut (hw : star ∉ w) (hlen : w.length < m) (hmn : m < n)
    (hnul : (0 : UInt8) ∉ w ++ star :: rest)
    (hcut : ∀ q, (0 : UInt8) ∉ q → q ≠ [] →
      wildcardMatch ((w ++ star :: rest).take m) (q.take n) = wildcardMatch (w ++ star :: rest) q) :
    ∀ c ∈ rest, c = star := by
  have hM := plainMatcher_wildcardMatch
  have hplain : ∀ c ∈ w, c ≠ star := fun c hc h => hw (h ▸ hc)
  obtain ⟨j, hj⟩ : ∃ j, m - w.length = j + 1 := ⟨m - w.length - 1, by omega⟩
  rw [take_append_of_length_le hlen.le, hj, take_succ_cons] at hcut
  rw [mem_append, mem_cons, not_or, not_or] at hnul
  obtain ⟨hnulw, -, hnulrest⟩ := hnul
  -- what is left of the pattern accepts a buffer full of any one byte
  have hfull : ∀ x : UInt8, x ≠ 0 →
      Glob star (star :: rest.take j) (replicate (n - w.length) x) := by
    intro x hx
    have hnulq : (0 : UInt8) ∉
        w ++ (replicate (n - w.length) x ++ rest.filter (· ≠ star)) := by
      simp only [mem_append, mem_replicate, mem_filter, not_or, not_and]
      exact ⟨hnulw, fun _ h => hx h.symm, fun h => absurd h hnulrest⟩
    have h := hcut _ hnulq (by simp; omega)
    rw [take_append_of_length_le (by omega), take_left' length_replicate,
      hM.accepts_append hplain, hM.accepts_append hplain] at h
    rw [← wildcardMatch_iff_glob, h, wildcardMatch_iff_glob]
    exact glob_star_iff.mpr ⟨_, _, rfl, exists_glob rest⟩
  have hcutstars : ∀ c ∈ rest.take j, c = star := by
    intro c hc
    by_contra hne
    obtain ⟨x, hx0, hxc⟩ := exists_byte_ne c
    have hmem := mem_of_glob (hfull x hx0) (mem_cons_of_mem _ hc) hne
    exact hxc (eq_of_mem_replicate hmem).symm
  -- so it accepts every single byte, and the whole pattern should
  intro c hc
  by_contra hne
  obtain ⟨x, hx0, hxc⟩ := exists_byte_ne c
  have h := hcut (w ++ [x]) (by simp [hnulw, hx0.symm]) (by simp)
  rw [take_append_of_fits (by rw [length_singleton]; omega), hM.accepts_append hplain,
    hM.accepts_append hplain, (wildcardMatch_iff_glob _ _).mpr (glob_stars hcutstars)] at h
  have hmem := mem_of_glob ((wildcardMatch_iff_glob _ _).mp h.symm) (mem_cons_of_mem _ hc) hne
  exact hxc (mem_singleton.mp hmem).symm

theorem wildcardMatch_cut_iff {r : Bytes} (hnul : (0 : UInt8) ∉ r) (hm : 0 < m) (hmn : m < n) :
    (∀ q, (0 : UInt8) ∉ q → q ≠ [] → wildcardMatch (r.take m) (q.take n) = wildcardMatch r q) ↔
      WholeCode m r := by
  have hM := plainMatcher_wildcardMatch
  constructor
  · intro hcut
    by_cases hstar : star ∈ r
    · obtain ⟨w, rest, rfl, hw⟩ := eq_append_cons_of_mem hstar
      have hplain : ∀ c ∈ w, c ≠ star := fun c hc h => hw (h ▸ hc)
      have hlen : w.length < m := by
        by_contra hle
        rw [mem_append, not_or] at hnul
        have h120 : (120 : UInt8) ≠ 0 := by decide
        refine hle (length_lt_of_exact hM hplain hnul.1 hm hmn ?_ h120 ?_ hcut)
        · rw [length_append, length_cons]
          omega
        · intro hnil _
          have hstars : ∀ c ∈ rest, c = star := fun c hc => by
            by_contra hne
            exact not_mem_nil (mem_of_glob ((wildcardMatch_iff_glob _ _).mp hnil)
              (mem_cons_of_mem _ hc) hne)
          exact (wildcardMatch_iff_glob _ _).mpr (glob_stars hstars)
      exact .inr ⟨w, rest, hw, stars_of_cut hw hlen hmn hnul hcut, rfl, hlen⟩
    · refine .inl ⟨hstar, ?_⟩
      by_contra hlong
      have hlt := length_lt_of_exact (s := []) hM (fun c hc h => hstar (h ▸ hc)) hnul hm hmn
        (by simpa using hlong) (by decide : (120 : UInt8) ≠ 0) (fun _ h => absurd rfl h)
        (by simpa using hcut)
      omega
  · rintro (⟨hstar, hlen⟩ | ⟨w, stars, hw, hstars, rfl, hlen⟩) q - -
    · exact hM.accepts_cut (fun c hc h => hstar (h ▸ hc)) hlen hmn
    · have hplain : ∀ c ∈ w, c ≠ star := fun c hc h => hw (h ▸ hc)
      obtain ⟨j, hj⟩ : ∃ j, m - w.length = j + 1 := ⟨m - w.length - 1, by omega⟩
      have hall : ∀ {stars t : Bytes}, (∀ c ∈ stars, c = star) →
          wildcardMatch (star :: stars) t = true :=
        fun h => (wildcardMatch_iff_glob _ _).mpr (glob_stars h)
      rw [take_append_of_length_le hlen.le, hj, take_succ_cons, Bool.eq_iff_iff,
        hM.append_iff hplain, hM.append_iff hplain]
      refine exists_take_eq_append_iff (by omega) fun t => ?_
      exact iff_of_true (hall fun c hc => hstars c (mem_of_mem_take hc)) (hall hstars)

end Function

/-! ## §2 Paths -/

/-- The bytes of a path pattern that stand for themselves. -/
def PlainPathByte (c : UInt8) : Prop := c ≠ star ∧ c ≠ colon

theorem pathMatch_nil_right_iff {pattern : Bytes} :
    pathMatch pattern [] = true ↔ ∀ c ∈ pattern, c = star := by
  rw [pathMatch_nil_right, List.isEmpty_iff, List.dropWhile_eq_nil_iff]
  simp

theorem plainMatcher_pathMatch : PlainMatcher pathMatch PlainPathByte where
  nil_iff := by
    intro t
    rw [pathMatch_nil, List.isEmpty_iff]
  cons_iff := by
    intro c s q hc
    cases q with
    | nil => simp [pathMatch_nil_right_iff, hc.1]
    | cons d q =>
      rw [pathMatch_char hc.1 hc.2, Bool.and_eq_true, beq_iff_eq]
      constructor
      · rintro ⟨rfl, h⟩
        exact ⟨q, rfl, h⟩
      · rintro ⟨t, heq, h⟩
        obtain ⟨rfl, rfl⟩ := cons.inj heq
        exact ⟨rfl, h⟩

section Path

variable {m n : Nat} {w s stars : Bytes}

/-- A star that is not the first of two, or a parameter. -/
def LoneWild (s : Bytes) : Prop :=
  ∃ c rest, s = c :: rest ∧ (c = colon ∨ c = star ∧ rest.head? ≠ some star)

/-- The pattern `path_match` goes on with behind a lone star or a parameter: a slash
behind the star is skipped. -/
def behindWild : Bytes → Bytes
  | [] => []
  | c :: rest =>
    if c = colon then rest.dropWhile fun a => decide (a ≠ slash)
    else if rest.head? = some slash then rest.tail else rest

theorem pathMatch_star_other {d e : UInt8} {pattern path : Bytes} (hstar : e ≠ star)
    (hslash : e ≠ slash) : pathMatch (star :: e :: pattern) (d :: path) =
      pathMatch (e :: pattern) ((d :: path).dropWhile fun a => decide (a ≠ slash)) := by
  rw [pathMatch, length_cons, pathMatchLoop_turn, if_pos rfl]
  show (if e = star then true else _) = _
  rw [if_neg hstar, if_neg hslash, pathMatch]

theorem pathMatch_wild (hs : LoneWild s) (d : UInt8) (t : Bytes) :
    pathMatch s (d :: t) =
      pathMatch (behindWild s) ((d :: t).dropWhile fun a => decide (a ≠ slash)) := by
  obtain ⟨c, rest, rfl, rfl | ⟨rfl, hstar⟩⟩ := hs
  · rw [pathMatch_colon]
    rfl
  · cases rest with
    | nil => rw [pathMatch_star_end, ← pathMatch_nil]; rfl
    | cons e rest =>
      have he : e ≠ star := fun h => hstar (by rw [h]; rfl)
      by_cases hslash : e = slash
      · subst hslash
        exact pathMatch_star_slash
      · rw [pathMatch_star_other he hslash]
        have hbehind : behindWild (star :: e :: rest) = e :: rest := by
          simp [behindWild, hslash, show star ≠ colon by decide]
        rw [hbehind]

theorem LoneWild.take (hs : LoneWild s) {j : Nat} (hj : 0 < j) : LoneWild (s.take j) := by
  obtain ⟨c, rest, rfl, hc⟩ := hs
  obtain ⟨j, rfl⟩ : ∃ i, j = i + 1 := ⟨j - 1, by omega⟩
  refine ⟨c, rest.take j, take_succ_cons, hc.imp_right fun h => ⟨h.1, ?_⟩⟩
  rw [head?_take]
  split
  · nofun
  · exact h.2

theorem head?_dropWhile_slash (t : Bytes) :
    (t.dropWhile fun a => decide (a ≠ slash)).head? ∈ [none, some slash] := by
  have h := head?_dropWhile_not (fun a => decide (a ≠ slash)) t
  cases hd : (t.dropWhile fun a => decide (a ≠ slash)).head? with
  | none => simp
  | some a =>
    rw [hd] at h
    simpa using h

theorem LoneWild.eq_star_of_nil_right (hs : LoneWild s) (h : pathMatch s [] = true) :
    s = [star] := by
  obtain ⟨c, rest, rfl, hc⟩ := hs
  rw [pathMatch_nil_right_iff, forall_mem_cons] at h
  obtain ⟨rfl, hrest⟩ := h
  rcases hc with hc | ⟨-, hhead⟩
  · exact absurd hc (by decide)
  · cases rest with
    | nil => rfl
    | cons e rest => exact absurd (congrArg some (hrest e mem_cons_self)) hhead

theorem pathMatch_wild_segment (hs : LoneWild s) {k : Nat} (hk : 0 < k) {u : Bytes}
    (hu : u.head? ∈ [none, some slash]) :
    pathMatch s (replicate k 120 ++ u) = pathMatch (behindWild s) u := by
  have hseg : slash ∉ replicate k (120 : UInt8) :=
    fun h => absurd (eq_of_mem_replicate h) (by decide)
  have hdrop := dropWhile_segment hseg hu
  obtain ⟨k, rfl⟩ : ∃ i, k = i + 1 := ⟨k - 1, by omega⟩
  rw [replicate_succ, cons_append] at hdrop ⊢
  rw [pathMatch_wild hs, hdrop]

/-- A pattern that takes the end of the path and a slash takes everything. -/
theorem stars_of_pathMatch_slash {pattern : Bytes} (hnil : pathMatch pattern [] = true)
    (hslash : pathMatch pattern [slash] = true) :
    ∃ stars : Bytes, (∀ c ∈ stars, c = star) ∧ pattern = star :: star :: stars := by
  have hall := pathMatch_nil_right_iff.mp hnil
  match pattern, hall with
  | [], _ => exact absurd hslash (by decide)
  | [c], hall =>
    obtain rfl := hall c mem_cons_self
    exact absurd hslash (by decide)
  | c :: d :: stars, hall =>
    rw [forall_mem_cons, forall_mem_cons] at hall
    exact ⟨stars, hall.2.2, by rw [hall.1, hall.2.1]⟩

theorem LoneWild.eq_of_behind_stars (hs : LoneWild s) (h : behindWild s = star :: star :: stars) :
    s = star :: slash :: star :: star :: stars := by
  obtain ⟨c, rest, rfl, rfl | ⟨rfl, hhead⟩⟩ := hs
  · have hslash := head?_dropWhile_slash rest
    rw [show (rest.dropWhile fun a => decide (a ≠ slash)) = star :: star :: stars from h] at hslash
    exact absurd hslash (by simp [show star ≠ slash by decide])
  · rw [behindWild, if_neg (by decide)] at h
    split at h
    · next hslash =>
      cases rest with
      | nil => cases hslash
      | cons e rest =>
        cases hslash
        rw [← h]
        rfl
    · rw [h] at hhead
      exact absurd rfl hhead

/-- A wildcard is only safe if it takes everything or if nothing can match behind it: a long
segment fills the buffer, and what stands behind the segment is not seen. -/
theorem wild_of_cut (hw : ∀ c ∈ w, PlainPathByte c) (hs : LoneWild s) (hnul : (0 : UInt8) ∉ w)
    (hlen : w.length < m) (hmn : m + 2 ≤ n)
    (hcut : ∀ q, (0 : UInt8) ∉ q → q ≠ [] →
      pathMatch ((w ++ s).take m) (q.take n) = pathMatch (w ++ s) q) :
    (∃ stars, (∀ c ∈ stars, c = star) ∧ s = star :: slash :: star :: star :: stars ∧
      w.length + 4 ≤ m) ∨ ∀ q, (0 : UInt8) ∉ q → q ≠ [] → pathMatch (w ++ s) q = false := by
  have hM := plainMatcher_pathMatch
  have hs' : LoneWild (s.take (m - w.length)) := hs.take (by omega)
  rw [take_append_of_length_le hlen.le] at hcut
  have hlong : ∀ u : Bytes, (0 : UInt8) ∉ u → u.head? ∈ [none, some slash] →
      pathMatch (behindWild s) u = pathMatch (behindWild (s.take (m - w.length))) [] := by
    intro u hu hhead
    have h := hcut (w ++ (replicate (n - w.length) 120 ++ u)) (by simp [hnul, hu])
      (by simp; omega)
    rw [take_append_of_length_le (by omega), take_left' length_replicate,
      hM.accepts_append hw, hM.accepts_append hw, pathMatch_wild_segment hs (by omega) hhead,
      ← append_nil (replicate _ _), pathMatch_wild_segment hs' (by omega) (by simp)] at h
    exact h.symm
  have hnil := hlong [] (by simp) (by simp)
  cases hb : pathMatch (behindWild (s.take (m - w.length))) [] with
  | true =>
    rw [hb] at hnil hlong
    have hslash := hlong [slash] (by decide) (by simp)
    have hslash' : pathMatch (behindWild (s.take (m - w.length))) [slash] = true := by
      have h := hcut (w ++ (replicate 1 120 ++ [slash])) (by simp [hnul]; decide) (by simp)
      rw [take_append_of_fits (by simp; omega), hM.accepts_append hw, hM.accepts_append hw,
        pathMatch_wild_segment hs Nat.one_pos (by simp),
        pathMatch_wild_segment hs' Nat.one_pos (by simp), hslash] at h
      exact h
    obtain ⟨stars, hstars, hbehind⟩ := stars_of_pathMatch_slash hnil hslash
    obtain ⟨stars', -, hbehind'⟩ := stars_of_pathMatch_slash hb hslash'
    have hroom := congrArg length (hs'.eq_of_behind_stars hbehind')
    refine .inl ⟨stars, hstars, hs.eq_of_behind_stars hbehind, ?_⟩
    simp only [length_take, length_cons] at hroom
    omega
  | false =>
    rw [hb] at hnil hlong
    refine .inr fun q hq _ => ?_
    rw [Bool.eq_false_iff]
    intro hmatch
    obtain ⟨t, rfl, ht⟩ := (hM.append_iff hw).mp hmatch
    rw [mem_append, not_or] at hq
    cases t with
    | nil =>
      rw [hs.eq_star_of_nil_right ht] at hnil
      exact absurd hnil (by decide)
    | cons d t =>
      rw [pathMatch_wild hs, hlong _ (fun h => hq.2 ((dropWhile_sublist _).subset h))
        (head?_dropWhile_slash _)] at ht
      cases ht

/-- The path patterns that are compared in full whatever is asked, with `m` bytes kept of the
pattern and `n` of the path. -/
inductive WholePath (m n : Nat) : Bytes → Prop
  /-- No wildcard, and it fits. -/
  | plain {w : Bytes} (hw : ∀ c ∈ w, PlainPathByte c) (hlen : w.length ≤ m) : WholePath m n w
  /-- Everything below a fixed beginning. Bytes behind the two stars count for one path only,
  the beginning itself. -/
  | below {w rest : Bytes} (hw : ∀ c ∈ w, PlainPathByte c) (hlen : w.length + 2 ≤ m)
      (hrest : w = [] ∨ (∀ c ∈ rest, c = star) ∨ ∃ c ∈ rest.take (m - w.length - 2), c ≠ star) :
      WholePath m n (w ++ star :: star :: rest)
  /-- The same with a segment in between: `path_match` skips the slash of the pattern only, and
  the two stars take the one of the path. -/
  | behind {w stars : Bytes} (hw : ∀ c ∈ w, PlainPathByte c) (hlen : w.length + 4 ≤ m)
      (hstars : ∀ c ∈ stars, c = star) : WholePath m n (w ++ star :: slash :: star :: star :: stars)
  /-- No path at all, before and after the cut; `WholePath.star_text` has such shapes. -/
  | nothing {r : Bytes} (h : ∀ q, (0 : UInt8) ∉ q → q ≠ [] →
      pathMatch r q = false ∧ pathMatch (r.take m) (q.take n) = false) : WholePath m n r

/-- A star with text right behind it, or in the next segment, matches no path: behind the star
the path ends or goes on with a slash. -/
theorem pathMatch_star_text {c : UInt8} {rest : Bytes} (hc : PlainPathByte c) (hslash : c ≠ slash)
    (q : Bytes) : pathMatch (star :: c :: rest) q = false ∧
      pathMatch (star :: slash :: c :: rest) q = false := by
  have hstop : pathMatch (c :: rest) (q.dropWhile fun a => decide (a ≠ slash)) = false := by
    have hhead := head?_dropWhile_slash q
    cases hq : q.dropWhile fun a => decide (a ≠ slash) with
    | nil => simp [← Bool.not_eq_true, pathMatch_nil_right_iff, hc.1]
    | cons d p =>
      rw [hq] at hhead
      have hd : d = slash := by simpa using hhead
      rw [pathMatch_char hc.1 hc.2, hd, beq_false_of_ne hslash, Bool.false_and]
  cases q with
  | nil => simp [← Bool.not_eq_true, pathMatch_nil_right_iff, hc.1]
  | cons d q =>
    exact ⟨(pathMatch_star_other hc.1 hslash).trans hstop, pathMatch_star_slash.trans hstop⟩

/-- A pattern that matches no path matches none behind a fixed beginning. -/
theorem pathMatch_append_eq_false {r w : Bytes} (hr : ∀ q, pathMatch r q = false)
    (hw : ∀ c ∈ w, PlainPathByte c) (q : Bytes) : pathMatch (w ++ r) q = false := by
  induction w generalizing q with
  | nil => exact hr q
  | cons d w ih =>
    obtain ⟨hd, hw⟩ := forall_mem_cons.mp hw
    cases q with
    | nil => simp [← Bool.not_eq_true, pathMatch_nil_right_iff, hd.1]
    | cons e q => rw [cons_append, pathMatch_char hd.1 hd.2, ih hw q, Bool.and_false]

/-- So these two shapes are compared in full as soon as the text behind the star is kept. -/
theorem WholePath.star_text {w rest : Bytes} {c : UInt8} (hw : ∀ c ∈ w, PlainPathByte c)
    (hc : PlainPathByte c) (hslash : c ≠ slash) (hlen : w.length + 3 ≤ m) :
    WholePath m n (w ++ star :: c :: rest) ∧ WholePath m n (w ++ star :: slash :: c :: rest) := by
  obtain ⟨k, rfl⟩ := Nat.exists_eq_add_of_le hlen
  have hcut : ∀ r : Bytes, (w ++ r).take (w.length + 3 + k) = w ++ r.take (k + 3) := by
    intro r
    rw [take_append, take_of_length_le (by omega), show w.length + 3 + k - w.length = k + 3 by omega]
  constructor
  · refine .nothing fun q _ _ => ⟨?_, ?_⟩
    · exact pathMatch_append_eq_false (fun q => (pathMatch_star_text hc hslash q).1) hw q
    · rw [hcut]
      exact pathMatch_append_eq_false (fun q => (pathMatch_star_text hc hslash q).1) hw _
  · refine .nothing fun q _ _ => ⟨?_, ?_⟩
    · exact pathMatch_append_eq_false (fun q => (pathMatch_star_text hc hslash q).2) hw q
    · rw [hcut]
      exact pathMatch_append_eq_false (fun q => (pathMatch_star_text hc hslash q).2) hw _

theorem exists_plain_append (r : Bytes) : ∃ w s, r = w ++ s ∧ (∀ c ∈ w, PlainPathByte c) ∧
    (s = [] ∨ (∃ rest, s = star :: star :: rest) ∨ LoneWild s) := by
  induction r with
  | nil => exact ⟨[], [], rfl, by simp, .inl rfl⟩
  | cons c r ih =>
    by_cases hc : PlainPathByte c
    · obtain ⟨w, s, rfl, hw, hs⟩ := ih
      exact ⟨c :: w, s, rfl, forall_mem_cons.mpr ⟨hc, hw⟩, hs⟩
    · refine ⟨[], c :: r, rfl, by simp, .inr ?_⟩
      rw [PlainPathByte, not_and_or, not_not, not_not] at hc
      by_cases hr : c = star ∧ r.head? = some star
      · obtain ⟨rfl, hr⟩ := hr
        cases r with
        | nil => cases hr
        | cons e r => exact .inl ⟨r, by rw [Option.some.inj hr]⟩
      · refine .inr ⟨c, r, rfl, hc.symm.imp_right fun h => ⟨h, fun hhead => hr ⟨h, hhead⟩⟩⟩

theorem pathMatch_behind_iff (hstars : ∀ c ∈ stars, c = star) {t : Bytes} :
    pathMatch (star :: slash :: star :: star :: stars) t = true ↔ t ≠ [] := by
  cases t with
  | nil => simp [pathMatch_nil_right_iff, show slash ≠ star by decide]
  | cons d t =>
    refine iff_of_true ?_ (by simp)
    rw [pathMatch_star_slash]
    cases (d :: t).dropWhile fun a => decide (a ≠ slash) with
    | nil => exact pathMatch_nil_right_iff.mpr (by simpa using hstars)
    | cons e u => exact pathMatch_star_star

theorem take_star_star {j : Nat} (hj : 2 ≤ j) {rest : Bytes} :
    (star :: star :: rest).take j = star :: star :: rest.take (j - 2) := by
  obtain ⟨j, rfl⟩ : ∃ i, j = i + 2 := ⟨j - 2, by omega⟩
  rfl

theorem pathMatch_cut_iff {r : Bytes} (hnul : (0 : UInt8) ∉ r) (hm : 0 < m) (hmn : m + 2 ≤ n) :
    (∀ q, (0 : UInt8) ∉ q → q ≠ [] → pathMatch (r.take m) (q.take n) = pathMatch r q) ↔
      WholePath m n r := by
  have hM := plainMatcher_pathMatch
  constructor
  · intro hcut
    obtain ⟨w, s, rfl, hw, hs⟩ := exists_plain_append r
    rw [mem_append, not_or] at hnul
    have hstars : pathMatch s [] = true → s ≠ [] → pathMatch s [120] = true := by
      intro hnil hne
      rw [pathMatch_nil_right_iff] at hnil
      rcases s with _ | ⟨c, _ | ⟨d, s⟩⟩
      · exact absurd rfl hne
      · rw [hnil c mem_cons_self]
        decide
      · rw [forall_mem_cons, forall_mem_cons] at hnil
        rw [hnil.1, hnil.2.1]
        exact pathMatch_star_star
    have hroom : m < (w ++ s).length → w.length < m := fun hlong =>
      length_lt_of_exact hM hw hnul.1 hm (by omega) hlong (by decide) hstars hcut
    rw [length_append] at hroom
    rcases hs with rfl | ⟨rest, rfl⟩ | hs
    · rw [append_nil]
      exact .plain hw (by simp at hroom; omega)
    · rw [length_cons, length_cons] at hroom
      have hlen : w.length + 2 ≤ m := by
        by_contra hle
        have h := hcut (w ++ [slash]) (by simp [hnul.1]; decide) (by simp)
        rw [take_append_of_length_le (by omega), take_append_of_fits (by simp; omega),
          show m - w.length = 1 by omega, hM.accepts_append hw, hM.accepts_append hw,
          pathMatch_star_star] at h
        exact absurd h (by simp [pathMatch_star_end])
      refine .below hw hlen (or_iff_not_imp_left.mpr fun hne => ?_)
      have h := hcut (w ++ []) (by simpa using hnul.1) (by simpa using hne)
      rw [take_append_of_length_le (by omega), take_append_of_fits (by simp; omega),
        hM.accepts_append hw, hM.accepts_append hw, take_star_star (by omega), Bool.eq_iff_iff,
        pathMatch_nil_right_iff, pathMatch_nil_right_iff] at h
      by_contra hcon
      simp only [not_or, not_exists, not_and, not_not] at hcon
      refine hcon.1 fun c hc => h.mp ?_ c (by simp [hc])
      simpa using hcon.2
    · have hlen : w.length < m := by
        by_contra hle
        obtain ⟨c, rest, rfl, -⟩ := hs
        rw [length_cons] at hroom
        omega
      rcases wild_of_cut hw hs hnul.1 hlen hmn hcut with ⟨stars, hall, rfl, hfit⟩ | hnone
      · exact .behind hw hfit hall
      · exact .nothing fun q hq hne => ⟨hnone q hq hne, (hcut q hq hne).trans (hnone q hq hne)⟩
  · intro hwhole q hq hne
    cases hwhole with
    | plain hw hlen => exact hM.accepts_cut hw hlen (by omega)
    | @below w rest hw hlen hrest =>
      rw [take_append_of_length_le (by omega), take_star_star (by omega)]
      rcases hrest with rfl | hrest
      · obtain ⟨d, q, rfl⟩ := exists_cons_of_ne_nil hne
        obtain ⟨n, rfl⟩ : ∃ i, n = i + 1 := ⟨n - 1, by omega⟩
        rw [take_succ_cons]
        exact pathMatch_star_star.trans pathMatch_star_star.symm
      · rw [Bool.eq_iff_iff, hM.append_iff hw, hM.append_iff hw]
        refine exists_take_eq_append_iff (by omega) fun t => ?_
        cases t with
        | nil =>
          rw [take_nil, pathMatch_nil_right_iff, pathMatch_nil_right_iff]
          simp only [forall_mem_cons, true_and]
          constructor
          · intro h
            rcases hrest with hall | ⟨c, hc, hne⟩
            · exact hall
            · exact absurd (h c hc) hne
          · exact fun h c hc => h c (mem_of_mem_take hc)
        | cons d t =>
          obtain ⟨k, hk⟩ : ∃ k, n - w.length = k + 1 := ⟨n - w.length - 1, by omega⟩
          rw [hk, take_succ_cons]
          exact iff_of_true pathMatch_star_star pathMatch_star_star
    | @behind w stars hw hlen hstars =>
      obtain ⟨k, hk⟩ : ∃ k, m - w.length = k + 4 := ⟨m - w.length - 4, by omega⟩
      rw [take_append_of_length_le (by omega), hk]
      simp only [take_succ_cons]
      rw [Bool.eq_iff_iff, hM.append_iff hw, hM.append_iff hw]
      refine exists_take_eq_append_iff (by omega) fun t => ?_
      rw [pathMatch_behind_iff fun c hc => hstars c (mem_of_mem_take hc),
        pathMatch_behind_iff hstars, not_iff_not, take_eq_nil_iff]
      exact or_iff_right (by omega)
    | nothing h => rw [(h q hq hne).1, (h q hq hne).2]

end Path

/-! ## §3 The six texts -/

/-- The texts of a rule that a strategy compares with a text of the request. -/
inductive RuleText
  | resourceType | roleName | label | method | path | functionCode
  deriving DecidableEq, Repr

namespace RuleText

/-- The text as the rule's object names it; for the data strategy that is the whole rule. -/
def written : RuleText → Json → Option Bytes
  | .resourceType, rule => Json.getStr (Json.objGet (some rule) (lit "resource_type"))
  | .roleName, item => Json.getStr (Json.objGet (some item) (lit "name"))
  | .label, item => ruleLabel item
  | .method, item => Json.getStr (Json.objGet (some item) (lit "method"))
  | .path, item => Json.getStr (Json.objGet (some item) (lit "path"))
  | .functionCode, item => Json.getStr (Json.objGet (some item) (lit "code"))

/-- The text as the compiled rule holds it. -/
def compiled : RuleText → Json → Bytes
  | .resourceType, rule => Json.copyStr 63 (Json.objGet (some rule) (lit "resource_type"))
  | .roleName, item => (rbacItem item).roleName
  | .label, item => (lbacItem item).labelName
  | .method, item => (apiItem item).method
  | .path, item => (apiItem item).path
  | .functionCode, item => (funcItem item).code

/-- The check that asks about a text. `other` is the request's second text: the path of a
method, the method of a path, the labels the user brings. -/
def request : RuleText → (other text : Bytes) → CheckRequest
  | .resourceType, _, text => .data text none
  | .roleName, _, text => .rbac text
  | .label, other, text => .lbac other text
  | .method, other, text => .api text other
  | .path, other, text => .api other text
  | .functionCode, _, text => .function text

/-- The text as the strategy reads it from the evaluation context. -/
def asked : RuleText → EvalContext → Bytes
  | .resourceType => EvalContext.resourceType
  | .roleName => EvalContext.roleName
  | .label => EvalContext.resourceLabel
  | .method => EvalContext.httpMethod
  | .path => EvalContext.requestPath
  | .functionCode => EvalContext.functionCode

/-- The strategy's comparison. -/
def accepts : RuleText → Bytes → Bytes → Bool
  | .resourceType, rule, text | .roleName, rule, text | .label, rule, text => rule == text
  | .method, rule, text => rule == lit "*" || strCaseEq rule text
  | .path, rule, text => pathMatch rule text
  | .functionCode, rule, text => wildcardMatch rule text

/-- Whether the strategy looks at its rules at all: all but the data strategy say nothing about
an empty text. -/
def Answered (k : RuleText) (text : Bytes) : Prop := k = .resourceType ∨ text ≠ []

/-- The bytes a compiled rule keeps. -/
def ruleBytes : RuleText → Nat
  | .resourceType | .roleName | .label => 62
  | .method => 14
  | .path => 254
  | .functionCode => 126

/-- The bytes an evaluation context keeps. -/
def requestBytes : RuleText → Nat
  | .resourceType | .roleName | .label => 63
  | .method => 7
  | .path => 1023
  | .functionCode => 127

/-! ### What the strategies compare -/

section Compare

variable {s : Store} {items : List Json} {ctx : EvalContext}

theorem firstMatch_map {α β : Type} (f : α → β) (isMatch isAllow : β → Bool) (xs : List α) :
    firstMatch isMatch isAllow (xs.map f) = firstMatch (isMatch ∘ f) (isAllow ∘ f) xs := by
  rw [firstMatch, firstMatch, find?_map]
  cases xs.find? (isMatch ∘ f) <;> rfl

theorem funcEvaluate_eq : funcEvaluate (items.map funcItem) ctx =
    if functionCode.asked ctx = [] then (.notFound, false)
    else firstMatch
      (fun i => functionCode.accepts (functionCode.compiled i) (functionCode.asked ctx))
      (fun i => (funcItem i).isAllow) items := by
  rw [funcEvaluate, firstMatch_map]
  rfl

theorem apiEvaluate_eq : apiEvaluate (items.map apiItem) ctx =
    if method.asked ctx = [] ∨ path.asked ctx = [] then (.notFound, false)
    else firstMatch (fun i => method.accepts (method.compiled i) (method.asked ctx)
        && path.accepts (path.compiled i) (path.asked ctx))
      (fun i => (apiItem i).isAllow) items := by
  rw [apiEvaluate, firstMatch_map]
  rfl

theorem rbacEvaluate_eq : rbacEvaluate s (items.map rbacItem) ctx =
    if roleName.asked ctx = [] then some (.notFound, false)
    else
      match items.find? fun i => roleName.accepts (roleName.compiled i) (roleName.asked ctx) with
      | none => some (.notFound, false)
      | some i => (userHasRole s ctx.userId (roleName.asked ctx)).map fun has =>
          if has then (.ok, (rbacItem i).isAllow) else (.notFound, false) := by
  rw [rbacEvaluate, find?_map]
  have hfind : items.find? ((fun i => i.roleName == ctx.roleName) ∘ rbacItem) =
    items.find? fun i => roleName.accepts (roleName.compiled i) (roleName.asked ctx) := rfl
  rw [hfind]
  cases items.find? fun i => roleName.accepts (roleName.compiled i) (roleName.asked ctx) <;> rfl

theorem lbacEvaluate_eq : lbacEvaluate (items.map lbacItem) ctx =
    if ctx.userLabels = [] ∨ label.asked ctx = [] then (.notFound, false)
    else
      match items.find? fun i => label.accepts (label.compiled i) (label.asked ctx) with
      | none => (.notFound, false)
      | some i =>
        if labelInList (label.asked ctx) ctx.userLabels then (.ok, (lbacItem i).isAllow)
        else (.notFound, false) := by
  rw [lbacEvaluate, find?_map]
  have hfind : items.find? ((fun i => i.labelName == ctx.resourceLabel) ∘ lbacItem) =
    items.find? fun i => label.accepts (label.compiled i) (label.asked ctx) := rfl
  rw [hfind]
  cases items.find? fun i => label.accepts (label.compiled i) (label.asked ctx) <;> rfl

theorem dataEvaluate_eq {V : Vendor} {h : Heap} {rules : Bytes} {root : Json} {rule : DataRule}
    (hread : V.yyjsonRead (cstr rules) = some root) (hrule : dataCompile V rules = some rule) :
    dataEvaluate V h rule ctx =
      if resourceType.accepts (resourceType.compiled root) (resourceType.asked ctx) then
        match dataRecordCheck V h rule ctx.record with
        | none => none
        | some .ok => (dataFilter h rule ctx).map fun ctx' => ((.ok, rule.isAllow), ctx')
        | some e => some ((e, false), ctx) else some ((.notFound, false), ctx) := by
  have htype : rule.resourceType = resourceType.compiled root := by
    rw [dataCompile, hread] at hrule
    cases hrule
    rfl
  have haccepts : resourceType.accepts (resourceType.compiled root) (resourceType.asked ctx) =
    (resourceType.compiled root == ctx.resourceType) := rfl
  rw [dataEvaluate, htype, haccepts]
  by_cases heq : ctx.resourceType = resourceType.compiled root
  · refine (if_neg (not_not.mpr heq)).trans (Eq.trans ?_ (if_pos (beq_iff_eq.mpr heq.symm)).symm)
    cases dataRecordCheck V h rule ctx.record with
    | none => rfl
    | some e => cases e <;> rfl
  · rw [if_pos heq, if_neg fun h => heq (beq_iff_eq.mp h).symm]

end Compare

/-! ### The copies -/

variable {k : RuleText} {item : Json} {r : Bytes}

theorem copyStr_eq {size : Nat} {v : Option Json} (h : Json.getStr v = some r) :
    Json.copyStr (size + 1) v = r.take size := by
  rw [Json.copyStr, h, Option.getD_some, strlcpy, cstr_eq_self (getStr_not_mem_zero h),
    Nat.add_sub_cancel]

theorem not_mem_written (h : k.written item = some r) : (0 : UInt8) ∉ r := by
  cases k with
  | label =>
    cases item with
    | str t =>
      cases h
      exact not_mem_cstr t
    | obj ms => exact getStr_not_mem_zero h
    | _ => cases h
  | _ => exact getStr_not_mem_zero h

theorem compiled_eq (h : k.written item = some r) : k.compiled item = r.take k.ruleBytes := by
  cases k with
  | label =>
    cases item with
    | str t =>
      cases h
      rfl
    | obj ms => exact copyStr_eq h
    | _ => cases h
  | _ => exact copyStr_eq h

theorem asked_eq (k : RuleText) (user : User) (other text : Bytes) :
    k.asked ((k.request other text).context user) = (cstr text).take k.requestBytes := by
  cases k with
  | resourceType | roleName | functionCode | label | path =>
    exact Block.cstrFrom_strlcpy (by decide) (by decide)
  | method => exact Block.cstrFrom_strlcpy_strlcpy (by decide) (by decide) (by decide)

/-! ### The rule texts that are compared in full -/

/-- Whatever the request: the comparison of the copies is the comparison of the texts. -/
def Whole : RuleText → Bytes → Prop
  | .resourceType, r | .roleName, r | .label, r => r.length ≤ 62
  | .method, r => r = lit "*" ∨ r.length ≤ 6
  | .path, r => WholePath 254 1023 r
  | .functionCode, r => WholeCode 126 r

theorem beq_cut_iff {P : Bytes → Prop} (hnul : (0 : UInt8) ∉ r) (hP : ∀ q, q ≠ [] → P q) :
    (∀ q, (0 : UInt8) ∉ q → P q → (r.take 62 == q.take 63) = (r == q)) ↔ r.length ≤ 62 := by
  constructor
  · intro hcut
    by_contra hlong
    have h := hcut (r.take 62) (fun h => hnul (mem_of_mem_take h)) (hP _ ?_)
    · have hlen := congrArg length (beq_iff_eq.mp (h.symm.trans (by simp)))
      rw [length_take] at hlen
      omega
    · intro hnil
      have hlen := congrArg length hnil
      rw [length_take, length_nil] at hlen
      omega
  · intro hlen q _ _
    rw [Bool.eq_iff_iff, beq_iff_eq, beq_iff_eq, take_of_length_le hlen, eq_comm,
      take_eq_iff_of_length_lt (by omega), eq_comm]

theorem length_eq_of_method_accepts {rule q : Bytes} (hany : rule ≠ lit "*")
    (h : method.accepts rule q = true) : rule.length = q.length := by
  rw [accepts, beq_eq_false_iff_ne.mpr hany, Bool.false_or, strCaseEq, beq_iff_eq] at h
  simpa using congrArg length h

theorem method_cut_iff (hnul : (0 : UInt8) ∉ r) :
    (∀ q, (0 : UInt8) ∉ q → q ≠ [] →
      method.accepts (r.take 14) (q.take 7) = method.accepts r q) ↔ r = lit "*" ∨ r.length ≤ 6 := by
  constructor
  · intro hcut
    rw [or_iff_not_imp_left]
    intro hany
    by_contra hlong
    have hself : method.accepts r r = true := by simp [accepts, strCaseEq]
    rcases Nat.lt_or_ge r.length 8 with hlt | hge
    · -- seven bytes: the request's eighth is not seen
      have h := hcut (r ++ [120]) (by simp [hnul]) (by simp)
      rw [take_of_length_le (by omega), take_left' (by omega), hself] at h
      have hlen := length_eq_of_method_accepts hany h.symm
      simp at hlen
    · -- more: the request keeps seven of them and the rule does not
      have h := hcut r hnul (by rintro rfl; simp at hge)
      rw [hself] at h
      have hne : r.take 14 ≠ lit "*" := fun heq => by
        have := congrArg length heq
        rw [length_take, show (lit "*").length = 1 from rfl] at this
        omega
      have hlen := length_eq_of_method_accepts hne h
      rw [length_take, length_take] at hlen
      omega
  · rintro (rfl | hlen) q _ _
    · rfl
    · rw [take_of_length_le (by omega)]
      have hcase : strCaseEq r (q.take 7) = strCaseEq r q := by
        rw [Bool.eq_iff_iff, strCaseEq, strCaseEq, beq_iff_eq, beq_iff_eq, map_take, eq_comm,
          take_eq_iff_of_length_lt (by rw [length_map]; omega), eq_comm]
      rw [accepts, accepts, hcase]

/-- **Matching by truncation.** A rule text is compared as it is written with every request
exactly if it is `Whole`. -/
theorem texts_match_iff (k : RuleText) (user : User) (other : Bytes) {item : Json} {r : Bytes}
    (h : k.written item = some r) :
    (∀ text, k.Answered (cstr text) →
      k.accepts (k.compiled item) (k.asked ((k.request other text).context user)) =
        k.accepts r (cstr text)) ↔ k.Whole r := by
  have hnul := not_mem_written h
  have hstr : (∀ text, k.Answered (cstr text) →
      k.accepts (k.compiled item) (k.asked ((k.request other text).context user)) =
        k.accepts r (cstr text)) ↔ ∀ q, (0 : UInt8) ∉ q → k.Answered q →
        k.accepts (r.take k.ruleBytes) (q.take k.requestBytes) = k.accepts r q := by
    simp only [asked_eq, compiled_eq h]
    constructor
    · intro hall q hq
      have := hall q
      rwa [cstr_eq_self hq] at this
    · exact fun hall text => hall (cstr text) (not_mem_cstr text)
  rw [hstr]
  cases k with
  | resourceType => exact beq_cut_iff hnul fun _ _ => .inl rfl
  | roleName | label => exact beq_cut_iff hnul fun _ h => .inr h
  | method =>
    simp only [Answered, reduceCtorEq, false_or]
    exact method_cut_iff hnul
  | path =>
    simp only [Answered, reduceCtorEq, false_or]
    exact pathMatch_cut_iff hnul (by decide) (by decide)
  | functionCode =>
    simp only [Answered, reduceCtorEq, false_or]
    exact wildcardMatch_cut_iff hnul (by decide) (by decide)

/-- A rule object with one text. -/
def namedBy (key : String) (text : Bytes) : Json := .obj [(lit key, .str text)]

def caller : User where
  id := 1
  username := lit "ada"
  phone := []
  status := .active

/-- A rule for GET means GET. -/
theorem get_whole : method.Whole (lit "GET") ∧ ∀ text, method.Answered (cstr text) →
    method.accepts (method.compiled (namedBy "method" (lit "GET")))
      (method.asked ((method.request (lit "/users") text).context caller)) =
    method.accepts (lit "GET") (cstr text) := by
  have hwhole : method.Whole (lit "GET") := .inr (by decide)
  exact ⟨hwhole, (texts_match_iff .method caller (lit "/users") (by decide)).mpr hwhole⟩

/-- A rule for PROPFIND does not match the method PROPFIND. A rule for a role of 68 bytes
matches the role named by its first 62. A rule for `/users/:id` matches a path that goes on
behind the segment, if that is long enough. -/
theorem cut_texts_match :
    let role := replicate 62 (97 : UInt8)
    let segment := replicate 1016 (120 : UInt8)
    (method.accepts (method.compiled (namedBy "method" (lit "PROPFIND")))
        (method.asked ((method.request (lit "/") (lit "PROPFIND")).context caller)) = false ∧
      method.accepts (lit "PROPFIND") (lit "PROPFIND") = true) ∧
    (roleName.accepts (roleName.compiled (namedBy "name" (role ++ lit "-admin")))
        (roleName.asked ((roleName.request [] role).context caller)) = true ∧
      roleName.accepts (role ++ lit "-admin") role = false) ∧
    path.accepts (path.compiled (namedBy "path" (lit "/users/:id")))
        (path.asked ((path.request (lit "GET")
          (lit "/users/" ++ segment ++ lit "/keys")).context caller)) = true ∧
      path.accepts (lit "/users/:id") (lit "/users/" ++ segment ++ lit "/keys") = false := by
  simp only [asked_eq]
  decide +kernel

end RuleText

end SsoSystem
