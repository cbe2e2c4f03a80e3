/-
SsoSystem.Token.OverreadTheorems — which payloads the scanner reads past.

The scanner steps over the terminator when the member loop of a `cnf` object
stands at a text that has neither a quote nor a closing brace any more
(`CnfOpen`). Where the scanner goes does not depend on what it has stored so
far, so whether it gets there is a property of the payload alone
(`Overruns`), and it is exact (`scanFrom_eq_none_iff`).
-/
import SsoSystem.Token.ScannerTheorems

namespace SsoSystem

open CMem Decimal Loop List Option

/-! ## §1 The `cnf` object -/

/-- The member loop comes to the end of the text without a closing brace, and not
right behind a member. -/
inductive CnfOpen : Bytes → Prop where
  | here {p : Bytes} (hne : p ≠ []) (hquote : (34 : UInt8) ∉ p) (hbrace : (125 : UInt8) ∉ p) :
      CnfOpen p
  | member {p p' jkt jkt' : Bytes} (h : cnfBody (p, jkt) = .inr (p', jkt')) (hp : CnfOpen p') :
      CnfOpen p

theorem cnfValue_fst (ikey q jkt jkt' : Bytes) :
    (cnfValue ikey q jkt).1 = (cnfValue ikey q jkt').1 := by
  unfold cnfValue
  split <;> rfl

/-- Where a round goes does not depend on the thumbprint so far. -/
theorem cnfBody_next {p p' jkt jkt' : Bytes} (h : cnfBody (p, jkt) = .inr (p', jkt'))
    (other : Bytes) :
    ∃ next, cnfBody (p, other) = .inr (p', next) := by
  unfold cnfBody at h ⊢
  dsimp only at h ⊢
  split at h
  · cases h
  · next hp =>
    rw [if_neg hp]
    split at h
    · cases h
    · next c q hq =>
      split at h
      · cases h
      · next hc =>
        obtain ⟨rfl, -⟩ := h
        rw [if_neg hc, cnfValue_fst _ _ other jkt]
        exact ⟨_, rfl⟩

theorem cnfBody_here {p : Bytes} (jkt : Bytes) (hne : p ≠ []) (hquote : (34 : UInt8) ∉ p)
    (hbrace : (125 : UInt8) ∉ p) : cnfBody (p, jkt) = .inl none := by
  rcases cnfBody_cases p jkt with ⟨hp, -⟩ | ⟨-, -, -, h⟩ | ⟨q, hq, -⟩ | ⟨q, r, i, v, hq, -, -⟩
  · exact absurd hp hne
  · exact h
  · exact absurd (hq.subset (by simp)) hbrace
  · exact absurd (hq.subset (by simp)) hquote

/-- The member loop has no result exactly on the texts that leave the object open. -/
theorem cnfLoop_eq_none_iff (p jkt : Bytes) : cnfLoop.run (p, jkt) = none ↔ CnfOpen p := by
  constructor
  · refine cnfLoop.run_induct (P := fun s o => o = none → CnfOpen s.1) ?_ ?_ (p, jkt)
    · rintro ⟨p, jkt⟩ o hb rfl
      change cnfBody (p, jkt) = _ at hb
      rcases cnfBody_cases p jkt with ⟨-, h⟩ | ⟨hne, hquote, hbrace, -⟩ | ⟨q, -, h⟩ | ⟨q, r, i, v,
        -, -, h⟩
      · rw [h] at hb
        cases hb
      · exact .here hne hquote hbrace
      · rw [h] at hb
        cases hb
      · rw [h] at hb
        cases hb
    · rintro ⟨p, jkt⟩ ⟨p', jkt'⟩ o hb ih ho
      exact .member hb (ih ho)
  · intro h
    induction h generalizing jkt with
    | here hne hquote hbrace => exact While.run_of_inl (cnfBody_here jkt hne hquote hbrace)
    | member h _ ih =>
      obtain ⟨next, hnext⟩ := cnfBody_next h jkt
      exact (While.run_of_inr hnext).trans (ih next)

theorem cnfLoop_fst (p jkt other : Bytes) :
    (cnfLoop.run (p, jkt)).map Prod.fst = (cnfLoop.run (p, other)).map Prod.fst := by
  refine cnfLoop.run_induct
    (P := fun s o => ∀ other, o.map Prod.fst = (cnfLoop.run (s.1, other)).map Prod.fst)
    ?_ ?_ (p, jkt) other
  · rintro ⟨p, jkt⟩ o hb other
    change cnfBody (p, jkt) = _ at hb
    have hother : ∃ o', cnfBody (p, other) = .inl o' ∧ o.map Prod.fst = o'.map Prod.fst := by
      unfold cnfBody at hb ⊢
      dsimp only at hb ⊢
      split at hb
      · next hp =>
        cases hb
        exact ⟨_, if_pos hp, rfl⟩
      · next hp =>
        rw [if_neg hp]
        split at hb
        · cases hb
          exact ⟨_, rfl, rfl⟩
        · split at hb
          · next hc =>
            cases hb
            exact ⟨_, if_pos hc, rfl⟩
          · cases hb
    obtain ⟨o', ho', hmap⟩ := hother
    rw [hmap, (While.run_of_inl ho' : cnfLoop.run (p, other) = o')]
  · rintro ⟨p, jkt⟩ ⟨p', jkt'⟩ o hb ih other
    obtain ⟨next, hnext⟩ := cnfBody_next hb other
    rw [ih next, (While.run_of_inr hnext : cnfLoop.run (p, other) = cnfLoop.run (p', next))]

/-! ## §2 The payload -/

/-- The key search comes to a `cnf` object that is left open. -/
inductive Overruns : Bytes → Prop where
  | cnf {p v : Bytes} (h : nextKey p = .key (lit "cnf") (123 :: v)) (hv : CnfOpen v) : Overruns p
  | skip {p r : Bytes} (h : nextKey p = .skip r) (hr : Overruns r) : Overruns p
  | value {p k v r : Bytes} {s s' : Scan} (h : nextKey p = .key k v)
      (hv : scanClaim k v s = some (r, s')) (hr : Overruns r) : Overruns p

theorem Overruns.exists_cnf {p : Bytes} (h : Overruns p) :
    ∃ q w, q <:+ p ∧ KeyAt (lit "cnf") q (123 :: w) ∧ CnfOpen w := by
  induction h with
  | @cnf p v hkey hv =>
    rcases nextKey_cases p with h | ⟨q, r, h, -, -⟩ | ⟨k, q, v', h, hq, hk, -⟩ <;>
      rw [hkey] at h <;> cases h
    exact ⟨q, v, hq, hk, hv⟩
  | @skip p r hskip _ ih =>
    obtain ⟨q', w, hq', hk', hw⟩ := ih
    rcases nextKey_cases p with h | ⟨q, r, h, hq, hr⟩ | ⟨k, q, v', h, -, -, -⟩ <;>
      rw [hskip] at h <;> cases h
    exact ⟨q', w, ((hq'.trans hr).trans (suffix_cons _ _)).trans hq, hk', hw⟩
  | @value p k v r s s' hkey hv _ ih =>
    obtain ⟨q', w, hq', hk', hw⟩ := ih
    rcases nextKey_cases p with h | ⟨q, r', h, -, -⟩ | ⟨k, q, v', h, hq, hk, -⟩ <;>
      rw [hkey] at h <;> cases h
    have hr : r <:+ q := ((scanClaim_suffix hv).trans hk.suffix).trans (tail_suffix q)
    exact ⟨q', w, (hq'.trans hr).trans hq, hk', hw⟩

theorem scanValue_fst (p : Bytes) (s other : Scan) (c : Claim) :
    (scanValue p s c).map Prod.fst = (scanValue p other c).map Prod.fst := by
  cases c <;> rw [scanValue, scanValue]
  case jti | scope | nonce =>
    unfold onQuoted
    split <;> rfl
  case sub | iat | exp | tnc =>
    unfold onNumber
    split <;> rfl
  case roles | groups =>
    unfold onIds
    split <;> rfl
  case cnf =>
    split
    · rw [Option.map_map, Option.map_map]
      exact cnfLoop_fst p.tail s.tok.jkt other.tok.jkt
    · rfl

theorem scanClaim_next {k v r : Bytes} {s s' : Scan} (h : scanClaim k v s = some (r, s'))
    (other : Scan) : ∃ next, scanClaim k v other = some (r, next) := by
  have hmap : (scanClaim k v other).map Prod.fst = some r := by
    unfold scanClaim at h ⊢
    split at h
    · rw [scanValue_fst v other s, h]
      rfl
    · cases h
      rfl
  obtain ⟨⟨r', next⟩, hnext, rfl⟩ := map_eq_some_iff.mp hmap
  exact ⟨next, hnext⟩

/-- Only an open `cnf` object leads out of the text. -/
theorem scanClaim_eq_none_iff {k v : Bytes} {s : Scan} :
    scanClaim k v s = none ↔ k = lit "cnf" ∧ ∃ w, v = 123 :: w ∧ CnfOpen w := by
  constructor
  · intro h
    unfold scanClaim at h
    split at h
    · next c hc =>
      have hname := Claim.name_of_ofKey hc
      cases c <;> rw [scanValue] at h
      case cnf =>
        split at h
        · next hbrace =>
          rw [map_eq_none_iff, cnfLoop_eq_none_iff] at h
          obtain ⟨w, rfl⟩ := List.head?_eq_some_iff.mp hbrace
          exact ⟨hname, w, rfl, h⟩
        · cases h
      all_goals first | unfold onQuoted at h | unfold onNumber at h | unfold onIds at h
      all_goals split at h <;> cases h
    · cases h
  · rintro ⟨rfl, w, rfl, hw⟩
    have hnone := (cnfLoop_eq_none_iff w s.tok.jkt).mpr hw
    rw [scanClaim, show Claim.ofKey (lit "cnf") = some .cnf from Claim.ofKey_name .cnf]
    dsimp only
    rw [scanValue, if_pos List.head?_cons, tail_cons, hnone]
    rfl

/-- The scan of a text has no result exactly when it comes to an open `cnf` object. -/
theorem scanFrom_eq_none_iff (p : Bytes) (s : Scan) : scanFrom p s = none ↔ Overruns p := by
  constructor
  · refine payloadLoop.run_induct (P := fun st o => o = none → Overruns st.1) ?_ ?_ (p, s)
    · rintro ⟨p, s⟩ o hb rfl
      simp only [payloadLoop] at hb
      split at hb
      · cases hb
      · cases hb
      · next k v hkey =>
        split at hb
        · next hnone =>
          obtain ⟨rfl, w, rfl, hw⟩ := scanClaim_eq_none_iff.mp hnone
          exact .cnf hkey hw
        · cases hb
    · rintro ⟨p, s⟩ ⟨p', s'⟩ o hb ih ho
      simp only [payloadLoop] at hb
      split at hb
      · cases hb
      · next r hskip =>
        cases hb
        exact .skip hskip (ih ho)
      · next k v hkey =>
        split at hb
        · cases hb
        · next hnext =>
          cases hb
          exact .value hkey hnext (ih ho)
  · intro h
    induction h generalizing s with
    | cnf hkey hv =>
      rw [scanFrom_key hkey, scanClaim_eq_none_iff.mpr ⟨rfl, _, rfl, hv⟩]
      rfl
    | skip hskip _ ih => rw [scanFrom_skip hskip, ih]
    | value hkey hv _ ih =>
      obtain ⟨next, hnext⟩ := scanClaim_next hv s
      rw [scanFrom_key hkey, hnext, bind_some, ih]

/-! ## §3 The memory behind the text -/

/-- The scan of a text has one result, whatever stands behind its terminator. -/
def ReadsOnlyInput (json : Bytes) (out : Token) : Prop :=
  ∃ r, ∀ behind, scanJwtPayload (json ++ 0 :: behind) out = some r

theorem scanJwtPayload_eq_none_iff {json : Bytes} {out : Token} :
    scanJwtPayload json out = none ↔ Overruns (cstr json) := by
  rw [scanJwtPayload, map_eq_none_iff]
  exact scanFrom_eq_none_iff _ _

/-- The scanner stays in its text, and so its result depends on nothing else, exactly on the
texts in which it comes to no open `cnf` object. -/
theorem readsOnlyInput_iff (json : Bytes) (out : Token) :
    ReadsOnlyInput json out ↔ ¬ Overruns (cstr json) := by
  have hscan : ∀ behind, scanJwtPayload (json ++ 0 :: behind) out = scanJwtPayload json out := by
    intro behind
    unfold scanJwtPayload
    rw [cstr_append_zero]
  unfold ReadsOnlyInput
  simp only [hscan, forall_const]
  rw [← scanJwtPayload_eq_none_iff, ← ne_eq, ne_none_iff_exists']

/-- The text `{"cnf":{x` ends inside its object. -/
theorem openCnf_overread : ¬ ReadsOnlyInput (lit "\x7b\"cnf\":\x7bx") .zero := by
  rintro ⟨r, hr⟩
  have hopen : Overruns (cstr (lit "\x7b\"cnf\":\x7bx" ++ [0])) :=
    .cnf (v := [120]) (by decide) (.here (by decide) (by decide) (by decide))
  cases (scanJwtPayload_eq_none_iff.mpr hopen).symm.trans (hr [])

end SsoSystem
