/-
SsoSystem.Lib.Climb — collecting what lies above given starting points.

`up` gives the element above one, if there is one. `collect` climbs from one
element and keeps the distinct elements it meets, until it reaches a top or
the list is full; `collectAll` does so from each starting point in turn. The
climb has no end if it enters a cycle before the list is full, and then there
is no result.
-/
import Mathlib.Data.Set.Card
import Mathlib.Data.Set.Finite.Lattice
import Mathlib.Logic.Relation
import Mathlib.Tactic.Common

namespace SsoSystem

open List Nat

namespace Climb

variable {α : Type} (up : α → Option α)

/-- `y` is `x` or lies above it. -/
def Reaches : α → α → Prop := Relation.ReflTransGen fun x y => up x = some y

variable {up}

theorem Reaches.refl (x : α) : Reaches up x x := Relation.ReflTransGen.refl

variable {x : α} {y : α} {z : α}

theorem Reaches.head (h : up x = some y) (hyz : Reaches up y z) : Reaches up x z :=
  Relation.ReflTransGen.head h hyz

theorem Reaches.tail (hxy : Reaches up x y) (h : up y = some z) : Reaches up x z :=
  Relation.ReflTransGen.tail hxy h

variable (up) in
/-- `y` lies above `x`, and may be `x` only on a cycle. -/
def Over (x y : α) : Prop := ∃ next, up x = some next ∧ Reaches up next y

/-- Above `x` lie `x` and what lies above the next element. -/
theorem reaches_iff : Reaches up x z ↔ z = x ∨ Over up x z := by
  constructor
  · intro h
    rcases Relation.ReflTransGen.cases_head h with rfl | h
    · exact .inl rfl
    · exact .inr h
  · rintro (rfl | ⟨y, hy, hz⟩)
    · exact .refl z
    · exact .head hy hz

theorem over_iff {next : α} (hup : up x = some next) : Over up x z ↔ Reaches up next z := by
  constructor
  · rintro ⟨y, hy, hz⟩
    cases hup.symm.trans hy
    exact hz
  · exact fun hz => ⟨next, hup, hz⟩

/-! ## §1 The loops -/

variable [DecidableEq α] (up)

/-- `x` at the end of the list, unless it is in it. -/
def addNew (ids : List α) (x : α) : List α := if x ∈ ids then ids else ids ++ [x]

/-- Climbs from `cur` at most `fuel` steps; `none` when the fuel does not suffice. -/
def collect (m : Nat) : Nat → α → List α → Option (List α)
  | 0, _, ids => if ids.length < m then none else some ids
  | fuel + 1, cur, ids =>
    if ids.length < m then
      match up cur with
      | none => some ids
      | some next => collect m fuel next (addNew ids next)
    else some ids

/-- Climbs from each starting point that is to be taken. -/
def collectAll (start : α → Bool) (fuel m : Nat) : List α → List α → Option (List α)
  | [], ids => some ids
  | d :: ds, ids =>
    if ids.length < m then
      if start d then
        match collect up m fuel d (addNew ids d) with
        | none => none
        | some ids' => collectAll start fuel m ds ids'
      else collectAll start fuel m ds ids
    else some ids

/-! ## §2 What is collected -/

variable {up} {start : α → Bool} {m fuel : Nat} {ids mid out : List α} {S T : α → Prop}

/-- `out` is `ids` with elements of `S` added, all of them if the list is not full. -/
structure Collected (m : Nat) (S : α → Prop) (ids out : List α) : Prop where
  grows : ids.length ≤ out.length
  keeps : ∀ y ∈ ids, y ∈ out
  sound : ∀ y ∈ out, y ∈ ids ∨ S y
  complete : out.length < m → ∀ y, S y → y ∈ out

namespace Collected

omit [DecidableEq α]

theorem congr (h : Collected m S ids out) (hiff : ∀ y, S y ↔ T y) : Collected m T ids out where
  grows := h.grows
  keeps := h.keeps
  sound y hy := (h.sound y hy).imp_right (hiff y).mp
  complete hroom y hy := h.complete hroom y ((hiff y).mpr hy)

theorem stop (hstop : ids.length < m → ∀ y, ¬ S y) : Collected m S ids ids where
  grows := le_refl _
  keeps _ hy := hy
  sound _ hy := .inl hy
  complete hroom y hy := absurd hy (hstop hroom y)

theorem trans (h : Collected m S ids mid) (h' : Collected m T mid out) :
    Collected m (fun y => S y ∨ T y) ids out where
  grows := le_trans h.grows h'.grows
  keeps y hy := h'.keeps y (h.keeps y hy)
  sound y hy := by
    rcases h'.sound y hy with hmid | hT
    · exact (h.sound y hmid).imp_right .inl
    · exact .inr (.inr hT)
  complete hroom y := by
    rintro (hS | hT)
    · exact h'.keeps y (h.complete (lt_of_le_of_lt h'.grows hroom) y hS)
    · exact h'.complete hroom y hT

end Collected

theorem collected_addNew (ids : List α) (x : α) : Collected m (· = x) ids (addNew ids x) := by
  unfold addNew
  split
  · next hx =>
    exact ⟨le_refl _, fun _ hy => hy, fun _ hy => .inl hy, fun _ y hy => hy ▸ hx⟩
  · exact ⟨by simp,
      fun y hy => by simp [hy], fun y hy => by simpa using hy, fun _ y hy => by simp [hy]⟩

variable {d : α} {ds : List α} {fuel' : Nat}

/-- One climb collects what lies above its start, the start not included. -/
theorem collect_spec (h : collect up m fuel d ids = some out) :
    Collected m (Over up d) ids out := by
  fun_induction collect up m fuel d ids with
  | case1 => cases h
  | case2 _ ids hfull | case5 _ _ ids hfull =>
    cases h
    exact .stop fun hroom => absurd hroom hfull
  | case3 _ d ids _ hup =>
    cases h
    exact .stop fun _ _ ⟨_, hnext, _⟩ => by simp [hup] at hnext
  | case4 _ d ids _ next hup ih =>
    exact ((collected_addNew ids next).trans (ih h)).congr fun y =>
      reaches_iff.symm.trans (over_iff hup).symm

/-- What lies above one of the starting points that are taken. -/
def Above (up : α → Option α) (start : α → Bool) (ds : List α) (y : α) : Prop :=
  ∃ d ∈ ds, start d = true ∧ Reaches up d y

/-- Climbing from every starting point collects what lies above one of them. -/
theorem collectAll_spec (h : collectAll up start fuel m ds ids = some out) :
    Collected m (Above up start ds) ids out := by
  fun_induction collectAll up start fuel m ds ids with
  | case1 ids =>
    cases h
    exact .stop fun _ _ ⟨_, hd, _⟩ => by cases hd
  | case2 => cases h
  | case3 d ds ids _ hstart ids' hclimb ih =>
    refine (((collected_addNew ids d).trans (collect_spec hclimb)).trans (ih h)).congr fun y => ?_
    rw [← reaches_iff]
    simp [Above, hstart]
  | case4 d ds ids _ hstart ih =>
    refine (ih h).congr fun y => ?_
    simp [Above, hstart]
  | case5 d ds ids hfull =>
    cases h
    exact .stop fun hroom => absurd hroom hfull

/-! ## §3 Counting steps -/

section Steps

omit [DecidableEq α]

variable (up) in
/-- The element `n` steps above. -/
def nth : Nat → α → Option α
  | 0, x => some x
  | n + 1, x => (up x).bind (nth n)

theorem nth_add (a b : Nat) (x : α) : nth up (a + b) x = (nth up a x).bind (nth up b) := by
  induction a generalizing x with
  | zero => rw [zero_add, nth, Option.bind_some]
  | succ a ih =>
    rw [succ_add, nth, nth, Option.bind_assoc]
    congr 1
    funext y
    exact ih y

theorem reaches_iff_nth : Reaches up x y ↔ ∃ n, nth up n x = some y := by
  constructor
  · intro h
    induction h using Relation.ReflTransGen.head_induction_on with
    | refl => exact ⟨0, rfl⟩
    | head hup _ ih =>
      obtain ⟨n, hn⟩ := ih
      exact ⟨n + 1, by rw [nth, hup, Option.bind_some, hn]⟩
  · rintro ⟨n, hn⟩
    induction n generalizing x with
    | zero =>
      cases hn
      exact .refl _
    | succ n ih =>
      obtain ⟨next, hup, hrest⟩ := Option.bind_eq_some_iff.mp hn
      exact .head hup (ih hrest)

theorem over_iff_nth : Over up x y ↔ ∃ n, nth up (n + 1) x = some y := by
  simp only [Over, reaches_iff_nth, nth, Option.bind_eq_some_iff]
  exact ⟨fun ⟨next, hup, n, hn⟩ => ⟨n, next, hup, hn⟩, fun ⟨n, next, hup, hn⟩ => ⟨next, hup, n, hn⟩⟩

variable (up) in
/-- No top lies above `x`. -/
def Endless (x : α) : Prop := ∀ y, Reaches up x y → (up y).isSome

theorem Endless.next {next : α} (h : Endless up x) (hup : up x = some next) : Endless up next :=
  fun y hy => h y (.head hup hy)

variable {x : α}

/-- Two steps that lead to the same element: all others repeat those up to the second. -/
theorem exists_nth_eq_of_repeat {i j : Nat} (hij : i < j)
    (heq : nth up (i + 1) x = nth up (j + 1) x) (n : Nat) :
    ∃ k ≤ j, nth up (n + 1) x = nth up (k + 1) x := by
  induction n using Nat.strong_induction_on with
  | _ n ih =>
    by_cases hn : n ≤ j
    · exact ⟨n, hn, rfl⟩
    · obtain ⟨t, rfl⟩ : ∃ t, n = j + t := ⟨n - j, by omega⟩
      obtain ⟨k, hk, hrest⟩ := ih (i + t) (by omega)
      refine ⟨k, hk, Eq.trans ?_ hrest⟩
      rw [Nat.add_right_comm j, Nat.add_right_comm i, nth_add (j + 1), nth_add (i + 1), heq]

/-- More steps than there are elements above: two of them lead to the same element. -/
theorem exists_repeat (hfin : {y | Over up x y}.Finite)
    (hfuel : {y | Over up x y}.ncard < fuel) (hsteps : ∀ n < fuel, (nth up (n + 1) x).isSome) :
    ∃ i j, i < j ∧ j < fuel ∧ nth up (i + 1) x = nth up (j + 1) x := by
  classical
  have hmaps : ∀ n ∈ Finset.range fuel, (nth up (n + 1) x).getD x ∈ hfin.toFinset := by
    intro n hn
    obtain ⟨y, hy⟩ := Option.isSome_iff_exists.mp (hsteps n (Finset.mem_range.mp hn))
    rw [hy, Option.getD_some, Set.Finite.mem_toFinset]
    exact over_iff_nth.mpr ⟨n, hy⟩
  have hcard : hfin.toFinset.card < (Finset.range fuel).card := by
    rw [Finset.card_range, ← Set.ncard_eq_toFinset_card _ hfin]
    exact hfuel
  obtain ⟨a, ha, b, hb, hne, heq⟩ := Finset.exists_ne_map_eq_of_card_lt_of_maps_to hcard hmaps
  obtain ⟨y, hy⟩ := Option.isSome_iff_exists.mp (hsteps a (Finset.mem_range.mp ha))
  obtain ⟨z, hz⟩ := Option.isSome_iff_exists.mp (hsteps b (Finset.mem_range.mp hb))
  have hsame : nth up (a + 1) x = nth up (b + 1) x := by
    rw [hy, hz, Option.getD_some, Option.getD_some] at heq
    rw [hy, hz, heq]
  rcases lt_or_gt_of_ne hne with hlt | hlt
  · exact ⟨a, b, hlt, Finset.mem_range.mp hb, hsame⟩
  · exact ⟨b, a, hlt, Finset.mem_range.mp ha, hsame.symm⟩

theorem Endless.isSome_nth (h : Endless up x) (n : Nat) : (nth up n x).isSome := by
  induction n generalizing x with
  | zero => rfl
  | succ n ih =>
    obtain ⟨next, hup⟩ := Option.isSome_iff_exists.mp (h x (.refl x))
    rw [nth, hup, Option.bind_some]
    exact ih (h.next hup)

/-- From everything above `x`, a cycle above `x` can be reached. -/
theorem reaches_of_cycle (hy : Reaches up x y) (hcycle : Over up y y)
    (hz : Reaches up x z) : Reaches up z y := by
  induction hz with
  | refl => exact hy
  | tail _ hup ih =>
    rcases reaches_iff.mp ih with rfl | hover
    · exact (over_iff hup).mp hcycle
    · exact (over_iff hup).mp hover

/-- With finitely many elements above, a climb without a top runs into a cycle. -/
theorem endless_iff_cycle (hfin : {y | Over up x y}.Finite) :
    Endless up x ↔ ∃ y, Reaches up x y ∧ Over up y y := by
  constructor
  · intro h
    obtain ⟨i, j, hij, -, heq⟩ := exists_repeat hfin (lt_succ_self _)
      fun n _ => h.isSome_nth (n + 1)
    obtain ⟨y, hy⟩ := Option.isSome_iff_exists.mp (h.isSome_nth (i + 1))
    refine ⟨y, reaches_iff_nth.mpr ⟨i + 1, hy⟩, over_iff_nth.mpr ⟨j - i - 1, ?_⟩⟩
    rw [hy, show j + 1 = i + 1 + (j - i - 1 + 1) by omega, nth_add, hy, Option.bind_some] at heq
    exact heq.symm
  · rintro ⟨y, hy, hcycle⟩ z hz
    rcases reaches_iff.mp (reaches_of_cycle hy hcycle hz) with rfl | ⟨next, hup, -⟩
    · obtain ⟨next, hup, -⟩ := hcycle
      exact Option.isSome_iff_exists.mpr ⟨next, hup⟩
    · exact Option.isSome_iff_exists.mpr ⟨next, hup⟩

end Steps

/-! ## §4 When the loops end -/

theorem mem_addNew : y ∈ addNew ids x ↔ y ∈ ids ∨ y = x := by
  have h := @collected_addNew _ _ ((addNew ids x).length + 1) ids x
  constructor
  · exact h.sound y
  · rintro (hy | hy)
    · exact h.keeps y hy
    · exact h.complete (lt_succ_self _) y hy

theorem nodup_addNew (hids : ids.Nodup) (x : α) : (addNew ids x).Nodup := by
  unfold addNew
  split
  · exact hids
  · next hx =>
    rw [← concat_eq_append]
    exact hids.concat hx

/-- The listed elements and those still to come. -/
def Listed (up : α → Option α) (ids : List α) (x : α) : Set α := {y | y ∈ ids ∨ Over up x y}

theorem listed_addNew {next : α} (hup : up x = some next) :
    Listed up (addNew ids next) next = Listed up ids x := by
  ext y
  simp only [Listed, Set.mem_ofPred_eq, mem_addNew, over_iff hup, reaches_iff, or_assoc]

omit [DecidableEq α] in
theorem finite_listed (hfin : {y | Over up x y}.Finite) : (Listed up ids x).Finite :=
  (ids.finite_toSet).union hfin

theorem length_le_ncard {T : Set α} (hT : T.Finite) (hids : ids.Nodup) (hsub : ∀ y ∈ ids, y ∈ T) :
    ids.length ≤ T.ncard := by
  rw [← toFinset_card_of_nodup hids, ← Set.ncard_coe_finset]
  exact Set.ncard_le_ncard (fun y hy => hsub y (by simpa using hy)) hT

theorem ncard_le_length {T : Set α} (hsub : ∀ y ∈ T, y ∈ ids) : T.ncard ≤ ids.length := by
  calc T.ncard ≤ (ids.toFinset : Set α).ncard :=
        Set.ncard_le_ncard (fun y hy => by simpa using hsub y hy) ids.toFinset.finite_toSet
    _ = ids.toFinset.card := Set.ncard_coe_finset _
    _ ≤ ids.length := toFinset_card_le ids

/-- Without a top, and with too few elements to fill the list, no number of steps is enough. -/
theorem collect_eq_none_of_endless (hids : ids.Nodup) (hfin : {y | Over up d y}.Finite)
    (hendless : Endless up d) (hfew : (Listed up ids d).ncard < m) (fuel : Nat) :
    collect up m fuel d ids = none := by
  induction fuel generalizing d ids with
  | zero =>
    have hroom : ids.length < m :=
      lt_of_le_of_lt (length_le_ncard (finite_listed hfin) hids fun _ hy => .inl hy) hfew
    rw [collect, if_pos hroom]
  | succ fuel ih =>
    have hroom : ids.length < m :=
      lt_of_le_of_lt (length_le_ncard (finite_listed hfin) hids fun _ hy => .inl hy) hfew
    obtain ⟨next, hup⟩ := Option.isSome_iff_exists.mp (hendless d (.refl d))
    rw [collect, if_pos hroom, hup]
    refine ih (nodup_addNew hids next) (hfin.subset fun y hy => ?_) (hendless.next hup) ?_
    · exact (over_iff hup).mpr (reaches_iff.mpr (.inr hy))
    · rwa [listed_addNew hup]

/-- A climb that runs out of steps has come through as many elements, and still had room. -/
theorem exists_of_collect_eq_none (h : collect up m fuel d ids = none) :
    ∃ out : List α, out.length < m ∧ (∀ y ∈ ids, y ∈ out) ∧
      ∀ n < fuel, ∃ y ∈ out, nth up (n + 1) d = some y := by
  fun_induction collect up m fuel d ids with
  | case1 d ids hroom => exact ⟨ids, hroom, fun _ hy => hy, fun _ hn => absurd hn (not_lt_zero _)⟩
  | case2 | case3 | case5 => cases h
  | case4 fuel d ids _ next hup ih =>
    obtain ⟨out, hroom, hkeeps, hsteps⟩ := ih h
    refine ⟨out, hroom, fun y hy => hkeeps y (mem_addNew.mpr (.inl hy)), fun n hn => ?_⟩
    rw [nth, hup, Option.bind_some]
    cases n with
    | zero => exact ⟨next, hkeeps next (mem_addNew.mpr (.inr rfl)), rfl⟩
    | succ n => exact hsteps n (lt_of_succ_lt_succ hn)

/-- One climb does not end exactly if there is no top above and what lies above does not fill
the list. -/
theorem collect_eq_none_iff (hids : ids.Nodup) (hfin : {y | Over up d y}.Finite)
    (hfuel : {y | Over up d y}.ncard < fuel) :
    collect up m fuel d ids = none ↔ Endless up d ∧ (Listed up ids d).ncard < m := by
  refine ⟨fun h => ?_, fun ⟨hendless, hfew⟩ => collect_eq_none_of_endless hids hfin hendless hfew _⟩
  obtain ⟨out, hroom, hkeeps, hsteps⟩ := exists_of_collect_eq_none h
  have hdefined : ∀ n < fuel, (nth up (n + 1) d).isSome := by
    intro n hn
    obtain ⟨y, -, hy⟩ := hsteps n hn
    exact Option.isSome_iff_exists.mpr ⟨y, hy⟩
  obtain ⟨i, j, hij, hj, hrepeat⟩ := exists_repeat hfin hfuel hdefined
  -- every step is one of those the climb has made
  have hall : ∀ n, ∃ y ∈ out, nth up (n + 1) d = some y := by
    intro n
    obtain ⟨k, hk, heq⟩ := exists_nth_eq_of_repeat hij hrepeat n
    rw [heq]
    exact hsteps k (lt_of_le_of_lt hk hj)
  have hover : ∀ y, Over up d y → y ∈ out := by
    intro y hy
    obtain ⟨n, hn⟩ := over_iff_nth.mp hy
    obtain ⟨z, hz, hnth⟩ := hall n
    cases hn.symm.trans hnth
    exact hz
  constructor
  · intro y hy
    obtain ⟨n, hn⟩ := reaches_iff_nth.mp hy
    obtain ⟨z, -, hz⟩ := hall n
    rw [nth_add, hn, Option.bind_some, nth] at hz
    obtain ⟨next, hup, -⟩ := Option.bind_eq_some_iff.mp hz
    exact Option.isSome_iff_exists.mpr ⟨next, hup⟩
  · refine lt_of_le_of_lt (ncard_le_length fun y hy => ?_) hroom
    rcases hy with hy | hy
    · exact hkeeps y hy
    · exact hover y hy

theorem nodup_collect (hids : ids.Nodup) (h : collect up m fuel d ids = some out) : out.Nodup := by
  fun_induction collect up m fuel d ids with
  | case1 => cases h
  | case2 | case3 | case5 => exact Option.some.inj h ▸ hids
  | case4 _ d ids _ next hup ih => exact ih (nodup_addNew hids next) h

theorem nodup_collectAll (hids : ids.Nodup)
    (h : collectAll up start fuel m ds ids = some out) : out.Nodup := by
  fun_induction collectAll up start fuel m ds ids with
  | case1 | case5 => exact Option.some.inj h ▸ hids
  | case2 => cases h
  | case3 d ds ids _ _ ids' hclimb ih => exact ih (nodup_collect (nodup_addNew hids d) hclimb) h
  | case4 d ds ids _ _ ih => exact ih hids h

theorem collect_mono (h : collect up m fuel d ids = some out)
    (hle : fuel ≤ fuel') : collect up m fuel' d ids = some out := by
  fun_induction collect up m fuel d ids generalizing fuel' with
  | case1 => cases h
  | case2 d ids hfull | case5 _ d ids hfull => cases fuel' <;> simpa [collect, hfull] using h
  | case3 fuel d ids hroom hup =>
    obtain ⟨k, rfl⟩ := Nat.exists_eq_add_of_lt hle
    simpa [collect, hroom, hup] using h
  | case4 fuel d ids hroom next hup ih =>
    obtain ⟨k, rfl⟩ : ∃ k, fuel' = k + 1 := ⟨fuel' - 1, by omega⟩
    rw [collect, if_pos hroom, hup]
    exact ih h (Nat.le_of_succ_le_succ hle)

/-- A result that is there stays the same when more steps are allowed. -/
theorem collectAll_mono (h : collectAll up start fuel m ds ids = some out) (hle : fuel ≤ fuel') :
    collectAll up start fuel' m ds ids = some out := by
  fun_induction collectAll up start fuel m ds ids with
  | case1 => exact h
  | case2 => cases h
  | case3 d ds ids hroom hstart ids' hclimb ih =>
    rw [collectAll, if_pos hroom, if_pos hstart, collect_mono hclimb hle]
    exact ih h
  | case4 d ds ids hroom hstart ih =>
    rw [collectAll, if_pos hroom, if_neg hstart]
    exact ih h
  | case5 d ds ids hfull => rwa [collectAll, if_neg hfull]

/-- The listed elements and those above the starting points. -/
def Gathered (up : α → Option α) (start : α → Bool) (ids ds : List α) : Set α :=
  {y | y ∈ ids ∨ Above up start ds y}

omit [DecidableEq α] in
theorem finite_gathered (hfin : ∀ d, {y | Over up d y}.Finite) (ids ds : List α) :
    (Gathered up start ids ds).Finite := by
  have hreach : ∀ d, {y | Reaches up d y}.Finite := fun d =>
    ((Set.finite_singleton d).union (hfin d)).subset fun y hy => reaches_iff.mp hy
  refine (ids.finite_toSet.union (Set.Finite.biUnion ds.finite_toSet fun d _ => hreach d)).subset ?_
  rintro y (hy | ⟨d, hd, -, hy⟩)
  · exact .inl hy
  · exact .inr (Set.mem_biUnion hd hy)

/-- A starting point without a top above it, reached while there is still room for all that
lies above the starting points so far. -/
def Trapped (up : α → Option α) (start : α → Bool) (m : Nat) (ids ds : List α) : Prop :=
  ∃ before d after, ds = before ++ d :: after ∧ start d = true ∧ Endless up d ∧
    (Gathered up start ids (before ++ [d])).ncard < m

theorem listed_eq_gathered (hstart : start d = true) :
    Listed up (addNew ids d) d = Gathered up start ids [d] := by
  ext y
  simp [Listed, Gathered, Above, mem_addNew, hstart, reaches_iff, or_assoc]

omit [DecidableEq α] in
theorem trapped_cons : Trapped up start m ids (d :: ds) ↔
    (start d = true ∧ Endless up d ∧ (Gathered up start ids [d]).ncard < m) ∨
      ∃ before e after, ds = before ++ e :: after ∧ start e = true ∧ Endless up e ∧
        (Gathered up start ids (d :: before ++ [e])).ncard < m := by
  constructor
  · rintro ⟨before, e, after, heq, hrest⟩
    cases before with
    | nil =>
      obtain ⟨rfl, -⟩ := cons.inj heq
      exact .inl hrest
    | cons b before =>
      obtain ⟨rfl, htail⟩ := cons.inj heq
      exact .inr ⟨before, e, after, htail, hrest⟩
  · rintro (h | ⟨before, e, after, rfl, hrest⟩)
    · exact ⟨[], d, ds, rfl, h⟩
    · exact ⟨d :: before, e, after, rfl, hrest⟩

/-- The loops do not end exactly if they run into a trap. -/
theorem collectAll_eq_none_iff (hids : ids.Nodup)
    (hfin : ∀ d, {y | Over up d y}.Finite) (hfuel : ∀ d, {y | Over up d y}.ncard < fuel) :
    collectAll up start fuel m ds ids = none ↔ Trapped up start m ids ds := by
  induction ds generalizing ids with
  | nil =>
    constructor
    · intro h
      cases h
    · rintro ⟨before, d, after, heq, -⟩
      simp at heq
  | cons d ds ih =>
    -- a list that is full stays full with what else lies above
    have hfull : ∀ {ids' : List α} {ds'}, ids'.Nodup → ¬ ids'.length < m →
        (∀ y ∈ ids', y ∈ Gathered up start ids ds') → ¬ (Gathered up start ids ds').ncard < m :=
      fun hnodup hlen hsub hlt =>
        hlen (lt_of_le_of_lt (length_le_ncard (finite_gathered hfin _ _) hnodup hsub) hlt)
    rw [collectAll, trapped_cons]
    by_cases hroom : ids.length < m
    · rw [if_pos hroom]
      by_cases hstart : start d = true
      · rw [if_pos hstart]
        have hone := @collect_eq_none_iff _ up _ m fuel _ d (nodup_addNew hids d) (hfin d) (hfuel d)
        rw [listed_eq_gathered hstart] at hone
        cases hclimb : collect up m fuel d (addNew ids d) with
        | none => simp [hstart, hone.mp hclimb]
        | some ids' =>
          have hno : ¬ (Endless up d ∧ (Gathered up start ids [d]).ncard < m) := by
            simp [← hone, hclimb]
          have hids' := nodup_collect (nodup_addNew hids d) hclimb
          have hspec := (collected_addNew ids d).trans (collect_spec hclimb)
          refine (ih hids').trans (Iff.trans ?_ (or_iff_right fun h => hno h.2).symm)
          -- a list that is not full holds all that lies above the first starting point
          refine exists_congr fun before => exists_congr fun e => exists_congr fun after =>
            and_congr_right fun _ => and_congr_right fun _ => and_congr_right fun _ => ?_
          by_cases hroom' : ids'.length < m
          · suffices h : Gathered up start ids' (before ++ [e]) =
                Gathered up start ids (d :: before ++ [e]) by rw [h]
            have hmem : ∀ y, y ∈ ids' ↔ y ∈ ids ∨ Reaches up d y := fun y => by
              rw [reaches_iff]
              refine ⟨hspec.sound y, ?_⟩
              rintro (hy | hy)
              · exact hspec.keeps y hy
              · exact hspec.complete hroom' y hy
            ext y
            simp [Gathered, Above, hmem, hstart, or_assoc]
          · have hsub : ∀ y ∈ ids', y ∈ Gathered up start ids (d :: before ++ [e]) := by
              intro y hy
              rcases hspec.sound y hy with hy | hy
              · exact .inl hy
              · exact .inr ⟨d, by simp, hstart, reaches_iff.mpr hy⟩
            refine iff_of_false ?_ (hfull hids' hroom' hsub)
            exact fun hlt => hroom' (lt_of_le_of_lt
              (length_le_ncard (finite_gathered hfin _ _) hids' fun y hy => .inl hy) hlt)
      · rw [if_neg hstart, ih hids]
        refine Iff.trans ?_ (or_iff_right fun h => hstart h.1).symm
        simp [Trapped, Gathered, Above, hstart]
    · rw [if_neg hroom]
      have hnever : ∀ ds', ¬ (Gathered up start ids ds').ncard < m :=
        fun ds' => hfull hids hroom fun y hy => .inl hy
      simp [hnever]

/-- With any number of steps: there is no result exactly if there is a trap. -/
theorem exists_collectAll_iff {bound : Nat} (hids : ids.Nodup)
    (hfin : ∀ d, {y | Over up d y}.Finite) (hbound : ∀ d, {y | Over up d y}.ncard ≤ bound) :
    (∃ fuel, (collectAll up start fuel m ds ids).isSome) ↔ ¬ Trapped up start m ids ds := by
  constructor
  · rintro ⟨fuel, hsome⟩ htrap
    obtain ⟨out, hout⟩ := Option.isSome_iff_exists.mp hsome
    have hmore := collectAll_mono hout (le_max_left fuel (bound + 1))
    have hnone := (collectAll_eq_none_iff hids hfin fun d =>
      lt_of_lt_of_le (lt_succ_of_le (hbound d)) (le_max_right fuel (bound + 1))).mpr htrap
    rw [hmore] at hnone
    cases hnone
  · intro htrap
    refine ⟨bound + 1, Option.isSome_iff_ne_none.mpr fun hnone => htrap ?_⟩
    exact (collectAll_eq_none_iff hids hfin fun d => lt_succ_of_le (hbound d)).mp hnone

end Climb

end SsoSystem
