/-
SsoSystem.Strategy.LabelTheorems — label lists.

`label_in_list` looks for the label with `strstr` and jumps over a hit that is
not a whole entry. A label without commas lies within one entry, so no entry
starts in what is jumped over, and the loop finds the label exactly if it is
one of the entries between the commas (`labels_spec`).
-/
import Mathlib.Data.List.Find
import SsoSystem.Lib.Loop
import SsoSystem.Strategy.Items

namespace SsoSystem

open CMem Loop List

/-! ## §1 Entries -/

/-- The entries that start in `rest`, which stands at the start of an entry or inside one. -/
def entriesFrom (start : Bool) (rest : Bytes) : List Bytes :=
  if start then rest.splitOn comma else (rest.splitOn comma).tail

theorem splitOn_eq_takeWhile (rest : Bytes) :
    ∃ others, rest.splitOn comma = rest.takeWhile (· != comma) :: others := by
  induction rest with
  | nil => exact ⟨[], rfl⟩
  | cons c rest ih =>
    obtain ⟨others, ih⟩ := ih
    rw [splitOn_cons_eq_if_modifyHead]
    by_cases hc : c = comma
    · exact ⟨rest.splitOn comma, by simp [hc]⟩
    · exact ⟨others, by simp [hc, ih]⟩

theorem tail_splitOn_cons (c : UInt8) (rest : Bytes) :
    ((c :: rest).splitOn comma).tail = entriesFrom (c == comma) rest := by
  obtain ⟨others, h⟩ := splitOn_eq_takeWhile rest
  rw [splitOn_cons_eq_if_modifyHead, entriesFrom]
  split <;> simp [h]

variable {label : Bytes} {item : Json}

theorem splitOn_append (hcomma : comma ∉ label) (after : Bytes) :
    (label ++ after).splitOn comma = (after.splitOn comma).modifyHead (label ++ ·) := by
  obtain ⟨others, h⟩ := splitOn_eq_takeWhile after
  induction label with
  | nil => simp [h]
  | cons c label ih =>
    rw [mem_cons, not_or] at hcomma
    obtain ⟨hc, hrest⟩ := hcomma
    rw [cons_append, splitOn_cons_eq_if_modifyHead, ih hrest]
    simp [h, Ne.symm hc]

section Search

variable {label : Bytes} {start : Bool}

/-- Where the label does not stand, no entry equal to it starts. -/
theorem mem_entriesFrom_of_miss {rest : Bytes} (hmiss : ¬label <+: rest) :
    label ∈ entriesFrom start rest ↔ label ∈ (rest.splitOn comma).tail := by
  obtain ⟨others, h⟩ := splitOn_eq_takeWhile rest
  have hne : label ≠ rest.takeWhile (· != comma) := by
    rintro heq
    exact hmiss (heq ▸ takeWhile_prefix _)
  cases start with
  | false => rfl
  | true => simp [entriesFrom, h, hne]

/-- Where the label stands, it is a whole entry, or the search goes on behind it. -/
theorem mem_entriesFrom_of_hit {after : Bytes} (hcomma : comma ∉ label) :
    label ∈ entriesFrom start (label ++ after) ↔
      (start = true ∧ (after = [] ∨ after.head? = some comma)) ∨ label ∈
      (after.splitOn comma).tail := by
  obtain ⟨others, h⟩ := splitOn_eq_takeWhile after
  have hwhole : after.takeWhile (· != comma) = [] ↔ after = [] ∨ after.head? = some comma := by
    cases after with
    | nil => simp
    | cons c after => by_cases hc : c = comma <;> simp [hc]
  rw [entriesFrom, splitOn_append hcomma, h, ← hwhole]
  cases start with
  | false => simp
  | true => simp

/-! ## §2 The search -/

/-- The byte before a position says whether an entry starts there. -/
def startsEntry (prev : Option UInt8) : Bool := prev.all (· == comma)

theorem startsEntry_iff {prev : Option UInt8} :
    startsEntry prev = true ↔ prev = none ∨ prev = some comma := by
  cases prev with
  | none | some => simp [startsEntry]

/-- Behind the label no entry starts. -/
theorem startsEntry_of_label (before : Bytes) (hne : label ≠ []) (hcomma : comma ∉ label) :
    startsEntry (before ++ label).getLast? = false := by
  rw [getLast?_append, getLast?_eq_some_getLast hne]
  have hlast : label.getLast hne ≠ comma := fun h => hcomma (h ▸ getLast_mem hne)
  simpa [startsEntry] using hlast

theorem labelSearch_iff (hne : label ≠ []) (hcomma : comma ∉ label) {fuel : Nat}
    {prev : Option UInt8}
    {rest : Bytes} (hfuel : rest.length < fuel) :
    labelSearch label fuel prev rest = true ↔ label ∈ entriesFrom (startsEntry prev) rest := by
  induction fuel generalizing prev rest with
  | zero => omega
  | succ fuel ih =>
    unfold labelSearch
    by_cases hpre : label <+: rest
    · obtain ⟨after, rfl⟩ := hpre
      have hpos : 0 < label.length := length_pos_iff.mpr hne
      rw [length_append] at hfuel
      have hrest := @ih label.getLast? after (by omega)
      rw [show startsEntry label.getLast? = false from startsEntry_of_label [] hne hcomma,
        entriesFrom, if_neg (by simp)] at hrest
      rw [mem_entriesFrom_of_hit hcomma, startsEntry_iff, ← hrest]
      simp only [prefix_append, isPrefixOf_iff_prefix, if_true, drop_left]
      split
      · next hwhole => simp [hwhole]
      · next hpart => simp [hpart]
    · rw [mem_entriesFrom_of_miss hpre, if_neg (by simpa using hpre)]
      cases rest with
      | nil => simp
      | cons c rest =>
        rw [length_cons] at hfuel
        rw [tail_splitOn_cons]
        exact ih (by omega)

/-! ## §3 The loop of the source -/

/-- One round of `while ((p = strstr(p, label)) != NULL)`, from the position behind `seen`. -/
def labelRound (label : Bytes) (p : Bytes × Bytes) : Bool ⊕ (Bytes × Bytes) :=
  match strstr label p.2 with
  | none => .inl false
  | some (skipped, found) =>
    let before := p.1 ++ skipped
    let after := found.drop label.length
    if (before = [] ∨ before.getLast? = some comma) ∧
      (after = [] ∨ after.head? = some comma) then .inl true
    else .inr (before ++ label, after)

theorem labelRound_decreases (hne : label ≠ []) {p p' : Bytes × Bytes}
    (h : labelRound label p = .inr p') :
    p'.2.length < p.2.length := by
  unfold labelRound at h
  split at h
  · cases h
  · next skipped found hfound =>
    obtain ⟨hrest, hpre⟩ := strstr_some hfound
    have hlen := hpre.length_le
    have hpos := length_pos_iff.mpr hne
    dsimp only at h hrest hlen
    split at h
    · cases h
    · cases h
      rw [hrest, length_append, length_drop]
      omega

/-- The loop of `label_in_list`. -/
def labelLoop (label : Bytes) (hne : label ≠ []) : While (Bytes × Bytes) Bool where
  body := labelRound label
  size p := p.2.length
  decreases := labelRound_decreases hne

/-- `strstr` skips positions at which no entry equal to the label starts. -/
theorem mem_entriesFrom_iff_strstr (hne : label ≠ []) (seen rest : Bytes) :
    label ∈ entriesFrom (startsEntry seen.getLast?) rest ↔
      ∃ r, strstr label rest = some r ∧ label ∈ entriesFrom (startsEntry (seen ++ r.1).getLast?)
        r.2 := by
  induction rest generalizing seen with
  | nil =>
    have hnil : ∀ start, label ∉ entriesFrom start [] := by
      intro start
      cases start <;> simp [entriesFrom, hne]
    simp [strstr, hne, hnil]
  | cons b rest ih =>
    by_cases hpre : label <+: b :: rest
    · simp [strstr, hpre]
    · have hseen : startsEntry (seen ++ [b]).getLast? = (b == comma) := by simp [startsEntry]
      rw [mem_entriesFrom_of_miss hpre, tail_splitOn_cons, ← hseen, ih (seen ++ [b])]
      simp only [strstr, isPrefixOf_iff_prefix, hpre, if_false, Option.map_eq_some_iff,
        append_assoc, singleton_append]
      constructor
      · rintro ⟨r, hr, hmem⟩
        exact ⟨_, ⟨r, hr, rfl⟩, hmem⟩
      · rintro ⟨_, ⟨r, hr, rfl⟩, hmem⟩
        exact ⟨r, hr, hmem⟩

theorem mem_entriesFrom_of_found (hne : label ≠ []) (hcomma : comma ∉ label) {p r : Bytes × Bytes}
    (hfound : strstr label p.2 = some r) :
    label ∈ entriesFrom (startsEntry p.1.getLast?) p.2 ↔
      ((p.1 ++ r.1 = [] ∨ (p.1 ++ r.1).getLast? = some comma) ∧
          (r.2.drop label.length = [] ∨ (r.2.drop label.length).head? = some comma)) ∨
        label ∈ entriesFrom (startsEntry (p.1 ++ r.1 ++ label).getLast?)
          (r.2.drop label.length) := by
  obtain ⟨-, after, hafter⟩ := strstr_some hfound
  have hbehind : entriesFrom (startsEntry (p.1 ++ r.1 ++ label).getLast?) after =
    (after.splitOn comma).tail := by
    rw [startsEntry_of_label _ hne hcomma]
    rfl
  have hstart : p.1 ++ r.1 = [] ↔ (p.1 ++ r.1).getLast? = none := getLast?_eq_none_iff.symm
  rw [mem_entriesFrom_iff_strstr hne, ← hafter, drop_left, hbehind, hstart, ← startsEntry_iff,
    ← mem_entriesFrom_of_hit hcomma, hafter, hfound]
  simp

/-- The loop finds the label exactly if it is one of the entries. -/
theorem run_labelLoop (hne : label ≠ []) (hcomma : comma ∉ label) (seen rest : Bytes) :
    (labelLoop label hne).run (seen, rest) = true ↔
      label ∈ entriesFrom (startsEntry seen.getLast?) rest := by
  refine (labelLoop label hne).run_induct
    (P := fun p r => r = true ↔ label ∈ entriesFrom (startsEntry p.1.getLast?) p.2) ?_ ?_
    (seen, rest)
  · intro p r hdone
    simp only [labelLoop, labelRound] at hdone
    split at hdone
    · next hnone =>
      cases hdone
      rw [mem_entriesFrom_iff_strstr hne, hnone]
      simp
    · next skipped found hfound =>
      split at hdone
      · next hwhole =>
        cases hdone
        exact iff_of_true rfl ((mem_entriesFrom_of_found hne hcomma hfound).mpr (.inl hwhole))
      · cases hdone
  · intro p p' r hstep hrest
    simp only [labelLoop, labelRound] at hstep
    split at hstep
    · cases hstep
    · next skipped found hfound =>
      split at hstep
      · cases hstep
      · next hpart =>
        cases hstep
        rw [mem_entriesFrom_of_found hne hcomma hfound, or_iff_right hpart]
        exact hrest

end Search

/-! ## §4 The strategy -/

/-- The items of the rules. -/
def labelItems (V : Vendor) (rules : Bytes) : List Json :=
  ((ruleArray V rules (lit "labels")).or (ruleArray V rules (lit "clearance_levels"))).getD []

/-- The label an item names, in full. -/
def ruleLabel : Json → Option Bytes
  | .str s => some (cstr s)
  | .obj ms => Json.getStr (Json.objGet (some (.obj ms)) (lit "name"))
  | _ => none

theorem lbacCompile_eq {V : Vendor} {rules : Bytes} {items : List LbacItem}
    (h : lbacCompile V rules = some items) : items = (labelItems V rules).map lbacItem := by
  obtain ⟨docs, hdocs, rfl⟩ := Option.map_eq_some_iff.mp h
  rw [labelItems, hdocs]
  rfl

theorem labelName_eq (hshort : ∀ l ∈ ruleLabel item, l.length < 62) :
    (lbacItem item).labelName = (ruleLabel item).getD [] := by
  have hcopy : ∀ t : Bytes, (cstr t).length < 62 → strlcpy 63 (cstr t) = cstr t :=
    fun t ht => strlcpy_eq_self (not_mem_cstr t) (by omega)
  cases item with
  | str t =>
    have ht : strlcpy 63 t = cstr t := take_of_length_le (by have := hshort _ rfl; omega)
    exact ht
  | obj ms =>
    simp only [lbacItem, Json.copyStr, ruleLabel] at hshort ⊢
    cases hname : Json.objGet (some (.obj ms)) (lit "name") with
    | none => rfl
    | some v =>
      rw [hname] at hshort
      cases v with
      | str t => exact hcopy t (hshort _ rfl)
      | _ => rfl
  | _ => rfl

theorem labelName_beq (hne : label ≠ []) (hshort : ∀ l ∈ ruleLabel item, l.length < 62) :
    ((lbacItem item).labelName == label) = decide (ruleLabel item = some label) := by
  rw [labelName_eq hshort]
  cases hl : ruleLabel item with
  | none => simp [hne]
  | some l => by_cases h : l = label <;> simp [h]

/-- For every label that is not empty and has no comma: the loop of `label_in_list` ends, it
finds the label exactly if it is one of the entries, and `lbac_evaluate` answers with the effect
of the first item for the label exactly if the user holds it. -/
theorem labels_spec (label : Bytes) (hne : label ≠ []) (hcomma : comma ∉ label) (list : Bytes) :
    (∀ n, list.length < n → (labelLoop label hne).rounds n ([], list) =
      some (labelInList label list)) ∧
    (labelInList label list = true ↔ label ∈ list.splitOn comma) ∧
    ∀ (V : Vendor) (rules : Bytes) (items : List LbacItem) (ctx : EvalContext) (allowed : Bool),
      lbacCompile V rules = some items → ctx.resourceLabel = label → ctx.userLabels = list →
      (∀ item ∈ labelItems V rules, ∀ l ∈ ruleLabel item, l.length < 62) →
      (lbacEvaluate items ctx = (.ok, allowed) ↔
        (∃ item, (labelItems V rules).find? (fun item => ruleLabel item = some label) = some item ∧
          (lbacItem item).isAllow = allowed) ∧ label ∈ list.splitOn comma) := by
  have hin : labelInList label list = true ↔ label ∈ list.splitOn comma :=
    labelSearch_iff hne hcomma (Nat.lt_succ_self _)
  have hrun : (labelLoop label hne).run ([], list) = labelInList label list :=
    Bool.eq_iff_iff.mpr ((run_labelLoop hne hcomma [] list).trans hin.symm)
  refine ⟨fun n hn => ?_, hin, fun V rules items ctx allowed hitems hlabel hlist hshort => ?_⟩
  · rw [While.rounds_eq_run _ n _ hn, hrun]
  · have hfind : items.find? (fun i => i.labelName == label) =
        ((labelItems V rules).find? fun item => ruleLabel item = some label).map lbacItem := by
      rw [lbacCompile_eq hitems, find?_map]
      congr 1
      refine find?_congr fun item hitem => ?_
      exact labelName_beq hne (hshort item hitem)
    have hunheld : list = [] → labelInList label list = false := by
      rintro rfl
      exact Bool.eq_false_iff.mpr fun h => hne (by simpa using hin.mp h)
    unfold lbacEvaluate
    rw [hlabel, hlist, hfind, ← hin]
    split
    · next hempty => simp [hunheld (hempty.resolve_right hne)]
    · cases (labelItems V rules).find? fun item => ruleLabel item = some label with
      | none => simp
      | some item => cases labelInList label list <;> simp

/-- A user cleared for two labels asks for the second one. -/
def secretContext : EvalContext :=
  { evalContextInit { id := 1, username := [], phone := [], status := .active } with
    params := (Block.zero.strlcpy 0 256 (lit "topsecret,secret")).strlcpy 256 64 (lit "secret") }

def secretRules : Bytes := lit "\x7b\"labels\":[\"secret\"]\x7d"

def secretVendor : Vendor :=
    .ofTable [(secretRules, .obj [(lit "labels", .arr [.str (lit "secret")])])]

theorem secretContext_allowed :
    lit "secret" ∈ (lit "topsecret,secret").splitOn comma ∧
      lbacEvaluate [⟨lit "secret", true⟩] secretContext = (.ok, true) := by
  obtain ⟨-, hin, heval⟩ :=
    labels_spec (lit "secret") (by decide) (by decide) (lit "topsecret,secret")
  have hmem := hin.mp (by decide)
  have hitems : labelItems secretVendor secretRules = [.str (lit "secret")] := rfl
  refine ⟨hmem,
    (heval secretVendor secretRules _ secretContext true rfl (by decide) (by decide) ?_).mpr
    ⟨⟨.str (lit "secret"), ?_, rfl⟩, hmem⟩⟩
  · rw [hitems]
    intro item hitem l hl
    cases mem_singleton.mp hitem
    cases hl
    decide
  · rw [hitems]
    rfl

end SsoSystem
