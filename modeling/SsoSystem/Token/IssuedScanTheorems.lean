/-
SsoSystem.Token.IssuedScanTheorems — an issued payload is never misread.

The scanner takes any quoted text that a colon follows for a key, also inside
a scope. The writer puts a backslash before every quote of a text, so what
the scanner may find inside one ends with a backslash and is no key it
knows; and a text's closing quote is followed by a comma or a brace.
-/
import SsoSystem.Token.RoundTripTheorems
import SsoSystem.Token.SoundnessTheorems

namespace SsoSystem

open CMem Decimal Loop List Option

/-! ## §1 Escaped text -/

/-- Every quote has a backslash before it. -/
def Guarded (e : Bytes) : Prop := ∀ a b, e = a ++ 34 :: b → ∃ a', a = a' ++ [92]

theorem guarded_escapeByte (b : UInt8) : Guarded (Json.escapeByte b) := by
  intro x y h
  obtain rfl := Json.quote_mem_escapeByte (b := b) (by simp [h])
  have hesc : Json.escapeByte 34 = [92, 34] := by decide
  rw [hesc] at h
  cases x with
  | nil => simp at h
  | cons c x =>
    cases x with
    | nil =>
      simp only [cons_append, nil_append, cons.injEq] at h
      exact ⟨[], by simp [h.1]⟩
    | cons d x => simp at h

theorem Guarded.append {e f : Bytes} (he : Guarded e) (hf : Guarded f) : Guarded (e ++ f) := by
  intro a b h
  rcases append_eq_append_iff.mp h with ⟨x, rfl, hx⟩ | ⟨x, rfl, hx⟩
  · obtain ⟨a', ha'⟩ := hf x b hx
    exact ⟨e ++ a', by rw [ha', append_assoc]⟩
  · cases x with
    | nil =>
      obtain ⟨a', ha'⟩ := hf [] b (by simpa using hx.symm)
      simp at ha'
    | cons c x =>
      rw [cons_append, cons.injEq] at hx
      obtain ⟨rfl, -⟩ := hx
      exact he a x rfl

theorem guarded_escape (s : Bytes) : Guarded (Json.escape s) := by
  induction s with
  | nil => exact fun a b h => by simp [Json.escape] at h
  | cons b s ih =>
    rw [Json.escape_cons]
    exact (guarded_escapeByte b).append ih

/-! ## §2 Where a known key can stand -/

theorem Claim.letter_of_mem_name {c : Claim} {b : UInt8} (h : b ∈ c.name) : 97 ≤ b.toNat ∧ b.toNat ≤
    122 := by
  have hall : ∀ c : Claim, ∀ b ∈ c.name, 97 ≤ b.toNat ∧ b.toNat ≤ 122 := by
    intro c
    cases c <;> exact forall_of_all (by decide)
  exact hall c b h

theorem Claim.exists_name_cons (c : Claim) : ∃ b r, c.name = b :: r := by
  cases c <;> exact ⟨_, _, rfl⟩

section KeyAt

variable {c : Claim} {q v : Bytes} {r e name : Bytes} {b : UInt8}

theorem KeyAt.of_suffix_cons (h : KeyAt c.name q v) (hb : b ≠ 34) (hq : q <:+ b :: r) :
    q <:+ r := by
  obtain ⟨w, w', rfl, -⟩ := h
  rcases suffix_cons_iff.mp hq with heq | hq
  · exact absurd (cons.inj heq).1.symm hb
  · exact hq

theorem KeyAt.of_suffix_append (h : KeyAt c.name q v) (he : (34 : UInt8) ∉ e) (hq : q <:+ e ++ r) :
    q <:+ r := by
  induction e with
  | nil => exact hq
  | cons b e ih =>
    have hb : b ≠ 34 := fun hb => he (by simp [hb])
    exact ih (fun hm => he (by simp [hm])) (h.of_suffix_cons hb hq)

theorem KeyAt.ne_cons (h : KeyAt c.name q v) (hb : b.toNat < 97 ∨ 122 < b.toNat) :
    q ≠ 34 :: b :: r := by
  obtain ⟨w, w', rfl, -⟩ := h
  obtain ⟨d, name, hname⟩ := c.exists_name_cons
  have hletter := c.letter_of_mem_name (b := d) (by simp [hname])
  intro heq
  rw [hname, cons.injEq, cons_append, cons.injEq] at heq
  obtain ⟨-, rfl, -⟩ := heq
  omega

/-- In a member of another text, a known key is the member's own or stands in its value. -/
theorem KeyAt.member {value : Bytes} (h : KeyAt c.name q v) (hname : (34 : UInt8) ∉ name)
    (hq : q <:+ member name value) :
    (name = c.name ∧ ∃ w, (∀ b ∈ w, isWs b = true) ∧ value = w ++ v) ∨ q <:+ value := by
  rw [SsoSystem.member] at hq
  rcases suffix_cons_iff.mp hq with heq | hq
  · left
    obtain ⟨w, w', rfl, hkey, hw, hw'⟩ := h
    rw [cons.injEq] at heq
    have hsplit := congrArg (takeWhile (· != 34)) heq.2
    have hrest := congrArg (dropWhile (· != 34)) heq.2
    rw [(takeWhile_ne hkey).1, (takeWhile_ne hname).1] at hsplit
    rw [(takeWhile_ne hkey).2, (takeWhile_ne hname).2] at hrest
    refine ⟨hsplit.symm, w', hw', ?_⟩
    cases w with
    | nil => simpa using hrest.symm
    | cons b w =>
      rw [cons.injEq, cons_append, cons.injEq] at hrest
      obtain ⟨-, rfl, -⟩ := hrest
      exact absurd (hw 58 (by simp)) (by decide)
  · right
    have hq' := h.of_suffix_append hname hq
    rcases suffix_cons_iff.mp hq' with heq | hq'
    · exact absurd heq (h.ne_cons (by decide))
    · exact h.of_suffix_cons (by decide) hq'

theorem KeyAt.ne_closing (h : KeyAt c.name q v) (hr : Delim r) : q ≠ 34 :: r := by
  cases r with
  | nil =>
    obtain ⟨w, w', rfl, -⟩ := h
    simp
  | cons b r =>
    refine h.ne_cons ?_
    rcases hr b (by simp) with rfl | rfl <;> decide

theorem KeyAt.ne_inner (h : KeyAt c.name q v) (hr : Delim r)
    (he : ∀ a b, e = a ++ 34 :: b → (34 : UInt8) ∉ a → (92 : UInt8) ∈ a) :
    q ≠ 34 :: (e ++ 34 :: r) := by
  obtain ⟨w, w', rfl, hkey, hw, -⟩ := h
  intro heq
  rw [cons.injEq] at heq
  have hsplit := congrArg (takeWhile (· != 34)) heq.2
  have hrest := congrArg (dropWhile (· != 34)) heq.2
  rw [(takeWhile_ne hkey).1] at hsplit
  rw [(takeWhile_ne hkey).2] at hrest
  by_cases hquote : (34 : UInt8) ∈ e
  · -- the key ends at a quote of the text: it has a backslash
    obtain ⟨a, b, rfl, ha⟩ := eq_append_cons_of_mem hquote
    rw [append_assoc, cons_append, (takeWhile_ne ha).1] at hsplit
    have hletter := c.letter_of_mem_name (b := 92) (hsplit ▸ he a b rfl ha)
    revert hletter
    decide
  · -- the key ends at the closing quote: no colon follows
    rw [(takeWhile_ne hquote).2, cons.injEq] at hrest
    obtain ⟨-, rfl⟩ := hrest
    cases w with
    | nil => exact absurd (hr 58 (by simp)) (by decide)
    | cons b w =>
      have hws := hw b (by simp)
      rcases hr b (by simp) with rfl | rfl <;> exact absurd hws (by decide)

/-- Inside a quoted text there is no known key: a quote of the text itself has a
backslash before it, and the closing quote a comma or a brace behind it. -/
theorem KeyAt.quoted (h : KeyAt c.name q v) (he : Guarded e) (hr : Delim r)
    (hq : q <:+ 34 :: (e ++ 34 :: r)) : q <:+ r := by
  obtain ⟨pre, hpre⟩ := hq
  rw [← cons_append] at hpre
  rcases append_eq_append_iff.mp hpre with ⟨x, hx, hqx⟩ | ⟨x, -, hx⟩
  · cases x with
    | nil => exact absurd hqx (h.ne_closing hr)
    | cons d f =>
      obtain rfl : d = 34 := by
        obtain ⟨w, w', rfl, -⟩ := h
        exact (cons.inj hqx).1.symm
      refine absurd hqx (h.ne_inner hr fun a b hab ha => ?_)
      -- the quote in front of `a`, or the opening one, is not its backslash
      subst hab
      cases pre with
      | nil =>
        obtain ⟨a', rfl⟩ := he a b (by simpa using hx)
        simp
      | cons d pre =>
        rw [cons_append, cons.injEq] at hx
        obtain ⟨a', ha'⟩ := he (pre ++ 34 :: a) b (by simp [hx.2])
        have hlast : (34 :: a).getLast? = some 92 := by
          simpa using congrArg getLast? ha'
        have hmem : (92 : UInt8) ∈ 34 :: a := mem_of_getLast? hlast
        simpa using hmem
  · cases x with
    | nil => exact absurd (by simpa using hx.symm) (h.ne_closing hr)
    | cons d x =>
      rw [cons_append, cons.injEq] at hx
      exact ⟨x, hx.2.symm⟩

theorem KeyAt.textMember {text : Bytes} (h : KeyAt c.name q v) (hname : (34 : UInt8) ∉ name)
    (hr : Delim r) (hq : q <:+ textMember name text r) : name = c.name ∨ q <:+ r := by
  rcases h.member hname hq with ⟨hkey, -⟩ | hq
  · exact .inl hkey
  · exact .inr (h.quoted (guarded_escape text) hr hq)

theorem KeyAt.idsMember {ids : List UInt64} (h : KeyAt c.name q v) (hname : (34 : UInt8) ∉ name)
    (hq : q <:+ idsMember name ids r) : name = c.name ∨ q <:+ r := by
  rcases h.member hname hq with ⟨hkey, -⟩ | hq
  · exact .inl hkey
  · have hids : (34 : UInt8) ∉ idsText ids := not_mem_idsText ids (by decide) (by decide)
    exact .inr (h.of_suffix_cons (by decide)
      (h.of_suffix_append hids (h.of_suffix_cons (by decide) hq)))

theorem KeyAt.not_suffix (h : KeyAt c.name q v) (hr : (34 : UInt8) ∉ r) : ¬q <:+ r := by
  intro hq
  obtain ⟨w, w', rfl, -⟩ := h
  exact hr (hq.subset (by simp))

end KeyAt

variable {c : Claim} {q v : Bytes} {t tok out : Token} {k : UInt32} {s : Scan} {m m' : TokenManager}
  {a : IssueArgs} {env : IssueEnv} {now : Int64}

theorem Claim.eq_of_name {d : Claim} (h : d.name = c.name) : c = d := by
  have hkey := congrArg Claim.ofKey h
  rw [Claim.ofKey_name, Claim.ofKey_name] at hkey
  exact (some.inj hkey).symm

theorem delim_comma (r : Bytes) : Delim (44 :: r) := fun b hb => .inl (by simpa using hb.symm)

theorem keyAt_optional {name text r : Bytes} (h : KeyAt c.name q v) (hname : (34 : UInt8) ∉ name)
    (hr : Delim r) (hq : q <:+ if text = [] then r else 44 :: textMember name text r) :
    text ≠ [] ∧ name = c.name ∨ q <:+ r := by
  split at hq
  · exact .inr hq
  · next hne => exact (h.textMember hname hr (h.of_suffix_cons (by decide) hq)).imp_left (⟨hne, ·⟩)

theorem keyAt_cnfPart (h : KeyAt c.name q v) (hq : q <:+ cnfPart t [125]) :
    c = .cnf ∧ v = 123 :: textMember (lit "jkt") t.jkt [125, 125] := by
  unfold cnfPart at hq
  split at hq
  · exact absurd hq (h.not_suffix (by decide))
  · rcases h.member (by decide) (h.of_suffix_cons (by decide) hq) with ⟨hkey, w, hw, hv⟩ | hq
    · refine ⟨Claim.eq_of_name (d := .cnf) hkey, ?_⟩
      cases w with
      | nil => exact hv.symm
      | cons b w =>
        rw [cons_append, cons.injEq] at hv
        exact absurd (hw b (by simp)) (hv.1 ▸ by decide)
    · have hjkt : ∀ c : Claim, lit "jkt" ≠ c.name := by
        intro c
        cases c <;> decide
      rcases h.textMember (by decide) (fun b hb => .inr (by simpa using hb.symm))
        (h.of_suffix_cons (by decide) hq) with hkey | hq
      · exact absurd hkey (hjkt c)
      · exact absurd hq (h.not_suffix (by decide))

theorem keyAt_tailPart (h : KeyAt c.name q v) (hq : q <:+ tailPart t) :
    c = .scope ∨ (t.oauthNonce ≠ [] ∧ c = .nonce) ∨ c = .roles ∨ c = .groups ∨
      c = .cnf ∧ v = 123 :: textMember (lit "jkt") t.jkt [125, 125] := by
  have hgroups : q <:+ groupsPart t (cnfPart t [125]) →
      c = .groups ∨ c = .cnf ∧ v = 123 :: textMember (lit "jkt") t.jkt [125, 125] := by
    intro hq
    unfold groupsPart at hq
    split at hq
    · exact .inr (keyAt_cnfPart h hq)
    · rcases h.idsMember (by decide) (h.of_suffix_cons (by decide) hq) with hkey | hq
      · exact .inl (Claim.eq_of_name (d := .groups) hkey)
      · exact .inr (keyAt_cnfPart h hq)
  have hroles : Delim (rolesPart t (groupsPart t (cnfPart t [125]))) := delim_comma _
  have hnonce : Delim (noncePart t (rolesPart t (groupsPart t (cnfPart t [125])))) := by
    unfold noncePart
    split
    · exact hroles
    · exact delim_comma _
  rcases keyAt_optional h (by decide) hnonce hq with ⟨-, hkey⟩ | hq
  · exact .inl (Claim.eq_of_name (d := .scope) hkey)
  rcases keyAt_optional h (by decide) hroles hq with ⟨hne, hkey⟩ | hq
  · exact .inr (.inl ⟨hne, Claim.eq_of_name (d := .nonce) hkey⟩)
  rcases h.idsMember (by decide) (h.of_suffix_cons (by decide) hq) with hkey | hq
  · exact .inr (.inr (.inl (Claim.eq_of_name (d := .roles) hkey)))
  · exact .inr (.inr (.inr (hgroups hq)))

variable {n : Nat}

theorem KeyAt.of_take {k p : Bytes} (h : KeyAt k q v) (hq : q <:+ p.take n) :
    q ++ p.drop n <:+ p ∧ KeyAt k (q ++ p.drop n) (v ++ p.drop n) := by
  obtain ⟨pre, hpre⟩ := hq
  obtain ⟨w, w', rfl, hkey, hw, hw'⟩ := h
  refine ⟨⟨pre, ?_⟩, w, w', by simp, hkey, hw, hw'⟩
  rw [← append_assoc, hpre, take_append_drop]

/-! ## §3 The scan of an issued payload -/

/-- The members of the head are those of `t`. -/
structure Scan.HeadOf (t : Token) (s : Scan) : Prop where
  foundSub : s.foundSub = true
  foundExp : s.foundExp = true
  jti : s.tok.jti = t.jti
  userId : s.tok.userId = t.userId
  issuedAt : s.tok.issuedAt = t.issuedAt
  expiresAt : s.tok.expiresAt = t.expiresAt
  nonce : s.tok.nonce = t.nonce

theorem Scan.HeadOf.scanValue (hs : s.HeadOf t) {x : Bytes × Scan}
    (hc : c = .scope ∨ c = .nonce ∨ c = .roles ∨ c = .groups ∨ c = .cnf)
    (h : scanValue v s c = some x) : x.2.HeadOf t := by
  obtain ⟨hsub, hexp, hjti, hid, hiat, hat, htnc⟩ := hs
  rcases hc with rfl | rfl | rfl | rfl | rfl <;> rw [SsoSystem.scanValue] at h
  case inl | inr.inl =>
    unfold onQuoted at h
    split at h <;> cases h <;> exact ⟨hsub, hexp, hjti, hid, hiat, hat, htnc⟩
  case inr.inr.inl | inr.inr.inr.inl =>
    unfold onIds at h
    split at h <;> cases h <;> exact ⟨hsub, hexp, hjti, hid, hiat, hat, htnc⟩
  case inr.inr.inr.inr =>
    split at h
    · obtain ⟨r, -, rfl⟩ := map_eq_some_iff.mp h
      exact ⟨hsub, hexp, hjti, hid, hiat, hat, htnc⟩
    · cases h
      exact ⟨hsub, hexp, hjti, hid, hiat, hat, htnc⟩

theorem Scan.HeadOf.scanFrom_tailPart {s' : Scan} (hs : s.HeadOf t)
    (h : scanFrom ((tailPart t).take n) s = some s') : s'.HeadOf t := by
  refine scanFrom_keeps (I := Scan.HeadOf t) (fun k q v s x hq hkey hs hx => ?_) hs h
  unfold scanClaim at hx
  split at hx
  · next c hc =>
    obtain rfl := Claim.name_of_ofKey hc
    obtain ⟨hq', hkey'⟩ := hkey.of_take hq
    refine hs.scanValue ?_ hx
    rcases keyAt_tailPart hkey' hq' with h | h | h | h | h
    · exact .inl h
    · exact .inr (.inl h.2)
    · exact .inr (.inr (.inl h))
    · exact .inr (.inr (.inr (.inl h)))
    · exact .inr (.inr (.inr (.inr h.1)))
  · cases hx
    exact hs

/-- Without a nonce in the claims the scanner finds none. -/
theorem oauthNonce_scanFrom_tailPart {s' : Scan} (ht : t.oauthNonce = [])
    (hs : s.tok.oauthNonce = [])
    (h : scanFrom ((tailPart t).take n) s = some s') : s'.tok.oauthNonce = [] := by
  refine scanFrom_keeps (I := fun s => s.tok.oauthNonce = []) (fun k q v s x hq hkey hs hx => ?_) hs
    h
  unfold scanClaim at hx
  split at hx
  · next c hc =>
    obtain rfl := Claim.name_of_ofKey hc
    obtain ⟨hq', hkey'⟩ := hkey.of_take hq
    rcases keyAt_tailPart hkey' hq' with rfl | ⟨hne, -⟩ | rfl | rfl | ⟨rfl, -⟩
    case inr.inl => exact absurd ht hne
    all_goals
      simp only [scanValue, onQuoted, onIds] at hx
      grind [map_eq_some_iff]
  · cases hx
    exact hs

theorem not_cnfOpen_take {jkt : Bytes} (hjkt : (34 : UInt8) ∉ jkt) (j : Nat) :
    ¬CnfOpen ((textMember (lit "jkt") jkt [125, 125]).take j) := by
  intro hopen
  obtain ⟨r, hrun, -⟩ := cnfLoop_jkt_take hjkt j
  rw [(cnfLoop_eq_none_iff _ _).mpr hopen] at hrun
  cases hrun

theorem not_overruns_tailPart (hjkt : (34 : UInt8) ∉ t.jkt) (n : Nat) :
    ¬Overruns ((tailPart t).take n) := by
  intro hover
  obtain ⟨q, w, hq, hkey, hopen⟩ := hover.exists_cnf
  obtain ⟨hq', hkey'⟩ := hkey.of_take hq
  have hknown := keyAt_tailPart (c := .cnf) hkey' hq'
  simp only [reduceCtorEq, and_false, false_or, true_and, cons_append, cons.injEq] at hknown
  have hcut : w = (textMember (lit "jkt") t.jkt [125, 125]).take w.length := by
    rw [← hknown, take_left]
  rw [hcut] at hopen
  exact not_cnfOpen_take hjkt _ hopen

/-- Whatever the scan of an issued payload ends with, its head is what was written. -/
theorem headOf_scanFrom_issued {str : Bytes}
    (h : scanFrom (issuedPayload (issueClaims m a env)) (startScan str) = some s) :
    s.HeadOf (issueClaims m a env) ∧ s.tok.oauthNonce = [] := by
  have hread := scanFrom_issuedPayload (plainAscii_jti m a env) (length_jti_le m a env)
    (startScan str).tok
  have hhead : (headState (startScan str).tok (issueClaims m a env)).HeadOf (issueClaims m a env) :=
    ⟨rfl, rfl, rfl, rfl, rfl, rfl, rfl⟩
  exact ⟨hhead.scanFrom_tailPart (hread.symm.trans h),
    oauthNonce_scanFrom_tailPart rfl rfl (hread.symm.trans h)⟩

/-- The scan of an issued payload ends, whatever the scope and the ids are, if the
thumbprint has no quote. -/
theorem scanFrom_issued (hjkt : (34 : UInt8) ∉ a.jktText) (str : Bytes) :
    ∃ s, scanFrom (issuedPayload (issueClaims m a env)) (startScan str) = some s ∧
      s.HeadOf (issueClaims m a env) := by
  have hquote : (34 : UInt8) ∉ (issueClaims m a env).jkt := fun h => hjkt (mem_of_mem_take h)
  have hread := scanFrom_issuedPayload (plainAscii_jti m a env) (length_jti_le m a env)
    (startScan str).tok
  have hdefined : scanFrom (issuedPayload (issueClaims m a env)) (startScan str) ≠ none := by
    intro hnone
    exact not_overruns_tailPart hquote _ ((scanFrom_eq_none_iff _ _).mp (hread.symm.trans hnone))
  obtain ⟨s, hs⟩ := ne_none_iff_exists'.mp hdefined
  exact ⟨s, hs, (headOf_scanFrom_issued hs).1⟩

/-- What any manager reads in an issued token it accepts comes from a scan of its payload. -/
theorem scan_tokenVerify_issued {c : Crypto} (hk : m.KeysOk k)
    (hissue : tokenIssue c m a env = .ok tok)
    (h : tokenVerify c m' now tok.tokenStr = some (.ok out)) :
    ∃ s : Scan, s.HeadOf (issueClaims m a env) ∧ s.tok = out ∧ now ≤ out.expiresAt ∧
      out.oauthNonce = [] := by
  have htok := tokenIssue_ok hk hissue
  have hnot : ∀ e, tokenVerify c m' now tok.tokenStr ≠ some (.error e) := by simp [h]
  obtain ⟨header, payload, sig, hsplit, -, hverify⟩ := tokenVerify_not_rejected hnot
  rw [h] at hverify
  have hstr : tok.tokenStr = issuedText c m.active.secret (kidOf k) (issueClaims m a env) := by
    rw [htok]
  rw [hstr, cstr_eq_self (nul_not_mem_issuedText c _ _ _), splitToken_issuedText] at hsplit
  cases hsplit
  have hdecode : cstr (payloadText (base64urlEncode 2048 (payloadJson (issueClaims m a env)))) =
      issuedPayload (issueClaims m a env) := by
    rw [payloadText, base64urlDecode_encode _ (by decide)]
    exact cstr_eq_self fun hmem => nul_not_mem_payloadJson _ (mem_of_mem_take hmem)
  rw [hdecode, eq_comm, map_eq_some_iff] at hverify
  obtain ⟨s, hscan, hverdict⟩ := hverify
  obtain ⟨rfl, -, -, hlive⟩ := verdict_ok hverdict
  exact ⟨s, (headOf_scanFrom_issued hscan).1, rfl, hlive, (headOf_scanFrom_issued hscan).2⟩

theorem headOf_tokenVerify_issued {c : Crypto} (hk : m.KeysOk k)
    (hissue : tokenIssue c m a env = .ok tok)
    (h : tokenVerify c m' now tok.tokenStr = some (.ok out)) :
    out.jti = tok.jti ∧ out.userId = tok.userId ∧ out.nonce = tok.nonce := by
  obtain ⟨s, hhead, rfl, -⟩ := scan_tokenVerify_issued hk hissue h
  rw [tokenIssue_ok hk hissue]
  exact ⟨hhead.jti, hhead.userId, hhead.nonce⟩

theorem expiry_tokenVerify_issued {c : Crypto} (hk : m.KeysOk k)
    (hissue : tokenIssue c m a env = .ok tok)
    (h : tokenVerify c m' now tok.tokenStr = some (.ok out)) :
    out.expiresAt = tok.expiresAt ∧ now ≤ tok.expiresAt := by
  obtain ⟨s, hhead, rfl, hlive, -⟩ := scan_tokenVerify_issued hk hissue h
  have hexpiry : s.tok.expiresAt = tok.expiresAt := by
    rw [tokenIssue_ok hk hissue]
    exact hhead.expiresAt
  exact ⟨hexpiry, hexpiry ▸ hlive⟩

end SsoSystem
