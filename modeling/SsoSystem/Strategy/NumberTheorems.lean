/-
SsoSystem.Strategy.NumberTheorems — integers in conditions.

Both strategies print a number with `"%g"` before they compare it, in the rule
and in the request, so what is compared are the six digits that are left
(`shown`). Rounding is monotone: two integers that are shown differently
compare as they should, and two different ones that are shown alike count as
equal (`integers_compare_iff`). The data strategy knows no `gte` and no `lte`.
-/
import Mathlib.Data.List.DropRight
import SsoSystem.Lib.Decimal
import SsoSystem.Lib.Rounding
import SsoSystem.Strategy.Attributes

namespace SsoSystem

open CMem Decimal Rounding List

variable {V : Vendor} {m n : Int}

/-! ## §1 What is left of an integer -/

/-- The integers of 64 bits, signed or not. -/
def InRange (n : Int) : Prop := -2 ^ 63 ≤ n ∧ n < 2 ^ 64

/-- `(double)n`, then the six digits `"%g"` keeps. -/
def shown (n : Int) : Int := onInt (roundDigits 10 6) (onInt (roundDigits 2 53) n)

theorem shown_mono {m n : Int} (h : m ≤ n) : shown m ≤ shown n :=
  onInt_mono (roundDigits_mono (by decide) (by decide))
    (onInt_mono (roundDigits_mono (by decide) (by decide)) h)

/-- The text of `"%g"` without the sign, for a number with at most six significant digits. -/
def gDigits (k : Nat) : Bytes :=
  if k < 10 ^ 6 then decimal k
  else
    let digits := ((decimal k).take 6).rdropWhile (· == 48)
    let exponent := (decimal k).length - 1
    digits.take 1 ++ (if digits.length ≤ 1 then [] else 46 :: digits.drop 1) ++ lit "e+" ++
      (if exponent < 10 then 48 :: decimal exponent else decimal exponent)

def gText (v : Int) : Bytes := if v < 0 then 45 :: gDigits v.natAbs else gDigits v.natAbs

/-- The C library prints the integer, and reads the text back. -/
structure PrintsAs (V : Vendor) (n : Int) : Prop where
  prints : V.fmtG (signedDecimal n) = gText (shown n)
  reads : V.strtod (gText (shown n)) = .fin (shown n)

theorem nul_not_mem_decimal (k : Nat) : (0 : UInt8) ∉ decimal k := fun h =>
  absurd (isDigit_of_mem_decimal k 0 h) (by decide)

theorem gDigits_ne_nil (k : Nat) : gDigits k ≠ [] := by
  unfold gDigits
  split
  · exact decimal_ne_nil _
  · simp [lit]

theorem nul_not_mem_gDigits (k : Nat) : (0 : UInt8) ∉ gDigits k := by
  have hpre : ((decimal k).take 6).rdropWhile (· == 48) <+: (decimal k).take 6 :=
    rdropWhile_prefix _ _
  have hdigits : (0 : UInt8) ∉ ((decimal k).take 6).rdropWhile (· == 48) := fun h =>
    nul_not_mem_decimal k (mem_of_mem_take (hpre.subset h))
  unfold gDigits
  split
  · exact nul_not_mem_decimal _
  · simp only [mem_append, not_or]
    refine ⟨⟨⟨fun h => hdigits (mem_of_mem_take h), ?_⟩, by decide⟩, ?_⟩
    · split
      · exact not_mem_nil
      · simpa using fun h => hdigits (mem_of_mem_tail h)
    · split <;> simp [nul_not_mem_decimal]

theorem length_gDigits_le {k : Nat} (h : k < 10 ^ 20) : (gDigits k).length ≤ 11 := by
  unfold gDigits
  split
  · next hsmall => exact (length_decimal_le (by decide) hsmall).trans (by decide)
  · have hpre : ((decimal k).take 6).rdropWhile (· == 48) <+: (decimal k).take 6 :=
      rdropWhile_prefix _ _
    have hdigits : (((decimal k).take 6).rdropWhile (· == 48)).length ≤ 6 :=
      hpre.length_le.trans (length_take_le ..)
    have hlong : (decimal k).length ≤ 20 := length_decimal_le (by decide) h
    have hone : ∀ x < 10, (decimal x).length ≤ 1 := fun x hx => length_decimal_le (by decide) hx
    have htwo : ∀ x < 100, (decimal x).length ≤ 2 := fun x hx => length_decimal_le (by decide) hx
    have hplus : (lit "e+").length = 2 := by decide
    simp only [length_append, length_take, hplus]
    split <;> split <;> simp only [length_nil, length_cons, length_drop]
    all_goals grind

theorem gText_ne_nil (v : Int) : gText v ≠ [] := by
  unfold gText
  split
  · exact cons_ne_nil _ _
  · exact gDigits_ne_nil _

theorem nul_not_mem_gText (v : Int) : (0 : UInt8) ∉ gText v := by
  unfold gText
  split <;> simp [nul_not_mem_gDigits]

theorem length_gText_le {v : Int} (h : v.natAbs < 10 ^ 20) : (gText v).length ≤ 12 := by
  have hdigits := length_gDigits_le h
  unfold gText
  split
  · rw [length_cons]
    exact Nat.succ_le_succ hdigits
  · omega

theorem natAbs_shown_lt (h : InRange n) : (shown n).natAbs < 10 ^ 20 := by
  have hn : n.natAbs ≤ 2 ^ 64 := by
    obtain ⟨hlo, hhi⟩ := h
    omega
  have hdouble := roundDigits_mono (b := 2) (p := 53) (by decide) (by decide) hn
  have hshown := roundDigits_mono (b := 10) (p := 6) (by decide) (by decide) hdouble
  have htop : roundDigits 10 6 (roundDigits 2 53 (2 ^ 64)) < 10 ^ 20 := by decide +kernel
  rw [shown, natAbs_onInt, natAbs_onInt]
  exact hshown.trans_lt htop

theorem attrText_num (h : InRange n) (hp : PrintsAs V n) {size : Nat} (hsize : 12 < size) :
    attrText V size (some (.num (signedDecimal n))) = some (gText (shown n)) := by
  have hlen := length_gText_le (natAbs_shown_lt h)
  simp only [attrText, Json.getStr, Json.getNum, Option.map_some, hp.prints]
  rw [strlcpy_eq_self (nul_not_mem_gText _) (by omega)]

/-! ## §2 Operators -/

/-- The operators on numbers. -/
inductive NumOp where
  | eq | neq | gt | gte | lt | lte
  deriving DecidableEq, Repr

namespace NumOp

def text : NumOp → Bytes
  | eq => lit "eq"
  | neq => lit "neq"
  | gt => lit "gt"
  | gte => lit "gte"
  | lt => lit "lt"
  | lte => lit "lte"

/-- What the operator means, with the request's number first. -/
def holds : NumOp → Int → Int → Bool
  | eq, a, e => a = e
  | neq, a, e => a ≠ e
  | gt, a, e => e < a
  | gte, a, e => e ≤ a
  | lt, a, e => a < e
  | lte, a, e => a ≤ e

/-- What the data strategy makes of it: it knows no `gte` and no `lte`. -/
def dataHolds : NumOp → Int → Int → Bool
  | gte, _, _ => false
  | lte, _, _ => false
  | op, a, e => op.holds a e

/-- The two numbers are shown apart where the operator tells them apart. -/
def ShownApart : NumOp → Int → Int → Prop
  | eq, a, e | neq, a, e => shown a = shown e → a = e
  | gt, a, e | lte, a, e => shown a = shown e → a ≤ e
  | lt, a, e | gte, a, e => shown a = shown e → e ≤ a

/-- The same for the data strategy, which answers no to `gte` and `lte`. -/
def DataShownApart : NumOp → Int → Int → Prop
  | gte, a, e => a < e
  | lte, a, e => e < a
  | op, a, e => op.ShownApart a e

theorem holds_shown_iff (op : NumOp) (a e : Int) :
    op.holds (shown a) (shown e) = op.holds a e ↔ op.ShownApart a e := by
  have hle : a ≤ e → shown a ≤ shown e := shown_mono
  have hge : e ≤ a → shown e ≤ shown a := shown_mono
  cases op <;> simp only [holds, ShownApart, decide_eq_decide] <;> grind

end NumOp

/-! ## §3 The strategies -/

theorem gText_inj (hm : PrintsAs V m) (hn : PrintsAs V n) (h : gText (shown n) = gText (shown m)) :
    shown n = shown m := by
  have hread := hn.reads
  rw [h, hm.reads] at hread
  have hcast : ((shown m : Int) : ℚ) = shown n := Dbl.fin.inj hread
  exact (Int.cast_injective hcast).symm

theorem gText_beq (hm : PrintsAs V m) (hn : PrintsAs V n) :
    (gText (shown n) == gText (shown m)) = decide (shown n = shown m) := by
  by_cases h : shown n = shown m
  · simp [h]
  · have hne : gText (shown n) ≠ gText (shown m) := fun heq => h (gText_inj hm hn heq)
    simp [h, hne]

theorem dbl_lt_intCast (a e : Int) : (Dbl.fin a).lt (.fin e) = decide (a < e) := by
  exact decide_eq_decide.mpr Rat.intCast_lt_intCast

theorem dbl_le_intCast (a e : Int) : (Dbl.fin a).le (.fin e) = decide (a ≤ e) := by
  rw [Dbl.le, dbl_lt_intCast, ← decide_not]
  · simp
  · nofun
  · nofun

theorem applyOperator_shown (hm : PrintsAs V m) (hn : PrintsAs V n) (op : NumOp) :
    applyOperator V op.text (gText (shown n)) (gText (shown m)) = op.holds (shown n) (shown m) := by
  have hread : ∀ {k}, PrintsAs V k → parseNumber V (gText (shown k)) = .fin (shown k) := by
    intro k hk
    rw [parseNumber, if_neg (gText_ne_nil _), hk.reads]
  cases op with
  | eq => exact gText_beq hm hn
  | neq =>
    show (!(gText (shown n) == gText (shown m))) = _
    rw [gText_beq hm hn, NumOp.holds, decide_not]
  | gt | lt =>
    show (parseNumber V _).lt (parseNumber V _) = _
    rw [hread hm, hread hn, dbl_lt_intCast, NumOp.holds]
  | gte | lte =>
    show (parseNumber V _).le (parseNumber V _) = _
    rw [hread hm, hread hn, dbl_le_intCast, NumOp.holds]

/-- The data strategy compares as the other one, but for the two operators it does not know. -/
theorem applyDataOp_shown (hm : PrintsAs V m) (hn : PrintsAs V n) (op : NumOp) :
    applyDataOp V op.text (gText (shown n)) (gText (shown m)) = op.dataHolds (shown n)
      (shown m) := by
  cases op with
  | eq => exact gText_beq hm hn
  | neq =>
    show (!(gText (shown n) == gText (shown m))) = decide _
    rw [gText_beq hm hn, decide_not]
  | gt | lt =>
    show (V.strtod _).lt (V.strtod _) = decide _
    rw [hm.reads, hn.reads, dbl_lt_intCast]
  | gte => rfl
  | lte => rfl

theorem strlcpy_text (op : NumOp) : strlcpy 15 (cstr op.text) = op.text := by cases op <;> decide

/-- A condition on two integers of 64 bits is answered as the integers compare exactly if they
are shown apart; and in the data strategy `gte` and `lte` only if they do not hold. -/
theorem integers_compare_iff (V : Vendor) (m n : Int) (hm : InRange m) (hn : InRange n)
    (hpm : PrintsAs V m) (hpn : PrintsAs V n) (op : NumOp) (item : Json)
    (hop : Json.objGet (some item) (lit "op") = some (.str op.text))
    (hvalue : Json.objGet (some item) (lit "value") = some (.num (signedDecimal m))) :
    (∀ ctx, Json.objGet (abacRoot V ctx (abacCondition V item).source)
    (abacCondition V item).attrName =
        some (.num (signedDecimal n)) →
      (abacConditionHolds V ctx (abacCondition V item) = op.holds n m ↔ op.ShownApart n m)) ∧
    ∀ record, Json.objGet (some record) (dataCondition V item).field =
      some (.num (signedDecimal n)) →
      (dataConditionHolds V record (dataCondition V item) = op.holds n m ↔
        op.DataShownApart n m) := by
  have hexpected : (attrText V 255 (Json.objGet (some item) (lit "value"))).getD [] =
    gText (shown m) := by
    rw [hvalue, attrText_num hm hpm (by decide)]
    rfl
  constructor
  · intro ctx hattr
    have habacOp : (abacCondition V item).op = op.text := by
      simp only [abacCondition, hop, Json.getStr]
      exact strlcpy_text op
    have hvalueText : (abacCondition V item).expectedValue = gText (shown m) := hexpected
    rw [abacConditionHolds, hattr, attrText_num hn hpn (by decide), habacOp, hvalueText]
    dsimp only
    rw [applyOperator_shown hpm hpn, NumOp.holds_shown_iff]
  · intro record hfield
    have hdataOp : (dataCondition V item).op = op.text := by
      simp only [dataCondition, hop, Json.copyStr, Json.getStr, Option.getD_some]
      exact strlcpy_text op
    have hvalueText : (dataCondition V item).expected = gText (shown m) := hexpected
    rw [dataConditionHolds, hfield, attrText_num hn hpn (by decide), hdataOp, hvalueText]
    dsimp only
    rw [applyDataOp_shown hpm hpn]
    have hshown := op.holds_shown_iff n m
    cases op with
    | gte | lte => simp [NumOp.dataHolds, NumOp.DataShownApart, NumOp.holds]
    | _ => exact hshown

/-! ## §4 Two conditions -/

def quotaRules : Bytes :=
    lit "\x7b\"conditions\":[\x7b\"attr\":\"quota\",\"op\":\"eq\",\"value\":1000000\x7d]\x7d"

def numberCondition (attr op value : String) : Json :=
  .obj [(lit "attr", .str (lit attr)), (lit "op", .str (lit op)), (lit "value", .num (lit value))]

/-- A C library that prints and reads the numbers below. -/
def numberVendor : Vendor :=
  { Vendor.ofTable
      [(quotaRules, .obj [(lit "conditions", .arr [numberCondition "quota" "eq" "1000000"])]),
        (lit "\x7b\"quota\":1000001\x7d", .obj [(lit "quota", .num (lit "1000001"))]),
        (lit "\x7b\"age\":21\x7d", .obj [(lit "age", .num (lit "21"))])] with
    fmtG := fun t => gText (shown (atoll t))
    strtod := fun t => if t = lit "1e+06" then .fin 1000000 else .fin (atoll t) }

/-- A request with these subject attributes. -/
def subjectContext (attrs : String) : EvalContext :=
  { evalContextInit { id := 1, username := [], phone := [], status := .active } with
    params := Block.zero.strlcpy 0 2048 (lit attrs) }

theorem age_compares :
    abacConditionHolds numberVendor (subjectContext "\x7b\"age\":21\x7d")
      (abacCondition numberVendor (numberCondition "age" "gte" "18")) = true := by
  have hage : PrintsAs numberVendor 21 := ⟨by decide +kernel, by decide +kernel⟩
  have hlimit : PrintsAs numberVendor 18 := ⟨by decide +kernel, by decide +kernel⟩
  have hapart : NumOp.gte.ShownApart 21 18 := fun _ => by decide
  exact ((integers_compare_iff numberVendor 18 21 ⟨by decide, by decide⟩ ⟨by decide, by decide⟩
    hlimit hage
    .gte (numberCondition "age" "gte" "18") (by rfl) (by rfl)).1 _ (by rfl)).mpr hapart

/-- A quota of a million is met by one more: both are shown as `1e+06`. And the data strategy
does not know that five is at least five. -/
theorem quota_millions_equal :
    PrintsAs numberVendor 1000000 ∧ PrintsAs numberVendor 1000001 ∧
      ((abacCompile numberVendor quotaRules).map fun rule =>
        abacEvaluate numberVendor rule (subjectContext "\x7b\"quota\":1000001\x7d")) =
          some (.ok, true) ∧
      dataConditionHolds numberVendor (.obj [(lit "level", .num (lit "5"))])
        ⟨lit "level", NumOp.gte.text, lit "5"⟩ = false :=
  ⟨⟨by decide +kernel, by decide +kernel⟩,
    ⟨by decide +kernel, by decide +kernel⟩, by decide +kernel,
    by decide +kernel⟩

end SsoSystem
