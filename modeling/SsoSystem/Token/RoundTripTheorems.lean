/-
SsoSystem.Token.RoundTripTheorems — which issued tokens give their claims back.

The payload is cut to 1533 bytes by its buffer and scanned without escapes,
so what comes back depends on the sizes of all claims and on the characters
of the two texts. The scan of a payload cut anywhere is computed part by part
(§1); comparing it with the claims gives the exact condition.
-/
import SsoSystem.Token.VerifyTheorems

namespace SsoSystem

open CMem Decimal Loop List Option Json

/-! ## §1 Reading a payload that is cut anywhere -/

variable {s : Scan} {t : Token} {n : Nat} {m : TokenManager} {a : IssueArgs} {env : IssueEnv}
  {r text : Bytes} {size : Nat} {k : UInt32} {out : Token}

theorem scanFrom_idsPart_take {c : Claim} {ids : List UInt64} {f : List UInt64 → Scan}
    {k : Nat} (hk : (44 :: member c.name [91]).length = k)
    (hstop : ∀ n < k, nextKey ((44 :: member c.name [91]).take n) = .stop)
    (hc : ∀ p, scanValue p s c = onIds p s [] f) (hf : f [] = s) (hlen : ids.length ≤ 64)
    (n : Nat) :
    scanFrom ((44 :: idsMember c.name ids r).take n) s =
      if n ≤ k + (idsText ids).length then
        some (f (scanIds 64 ((idsText ids).take (n - k))).1)
      else scanFrom (r.take (n - (k + (idsText ids).length + 1))) (f ids) := by
  have hsplit : 44 :: idsMember c.name ids r =
      (44 :: member c.name [91]) ++ (idsText ids ++ 93 :: r) := by
    simp [idsMember, member]
  have hglue : ∀ q, (44 :: member c.name [91]) ++ q = 44 :: member c.name (91 :: q) := by
    simp [member]
  rw [hsplit]
  rcases Nat.lt_or_ge n k with hn | hn
  · -- the cut is inside the key
    rw [take_append_of_le_length (by omega), scanFrom_stop (hstop n hn), if_pos (by omega),
      show n - k = 0 by omega, take_zero, scanIds_end (.inl rfl), hf]
  · obtain ⟨j, rfl⟩ : ∃ j, n = k + j := ⟨n - k, by omega⟩
    rw [← hk, take_length_add_append, hk, hglue, Nat.add_sub_cancel_left]
    split
    · next hj =>
      rw [take_append_of_le_length (by omega)]
      exact scanFrom_ids_cut c s f (by decide) hc fun h =>
        not_mem_idsText ids (by decide) (by decide) (mem_of_mem_take h)
    · next hj =>
      obtain ⟨i, rfl⟩ : ∃ i, j = (idsText ids).length + (i + 1) :=
        ⟨j - (idsText ids).length - 1, by omega⟩
      rw [take_length_add_append, take_succ_cons, scanFrom_ids c s f (by decide) hc hlen,
        show k + ((idsText ids).length + (i + 1)) - (k + (idsText ids).length + 1) = i by omega]

/-- The thumbprint that is read from a payload cut `n` bytes into its `cnf` part. -/
def jktRead (t : Token) (n : Nat) : Bytes := storeText 64 ((Json.escape t.jkt).take (n - 15)) []

theorem scanFrom_cnf {q r jkt : Bytes} (hrun : cnfLoop.run (q, s.tok.jkt) = some (r, jkt))
    (hr : (34 : UInt8) ∉ r) :
    scanFrom (44 :: member (lit "cnf") (123 :: q)) s = some { s with tok.jkt := jkt } := by
  have hvalue : scanValue (123 :: q) s .cnf = some (r, { s with tok.jkt := jkt }) := by
    rw [scanValue, if_pos (by rfl), tail_cons, hrun]
    rfl
  rw [show lit "cnf" = Claim.name .cnf from rfl, scanFrom_member .cnf s (by decide) (by decide),
    hvalue, bind_some, scanFrom_stop (nextKey_of_not_mem hr)]

theorem cnfLoop_jkt_take {jkt : Bytes} (hjkt : (34 : UInt8) ∉ jkt) (j : Nat) :
    ∃ r, cnfLoop.run ((textMember (lit "jkt") jkt [125, 125]).take j, []) =
      some (r, storeText 64 ((Json.escape jkt).take (j - 7)) []) ∧ (34 : UInt8) ∉ r := by
  rcases Nat.lt_or_ge j 7 with hj | hj
  · -- the cut is in front of the thumbprint
    have hopen : ∀ j < 7, cnfLoop.run ((member (lit "jkt") [34]).take j, []) = some ([], []) := by
      decide
    have hshort : (textMember (lit "jkt") jkt [125, 125]).take j = (member (lit "jkt") [34]).take
      j :=
      @take_append_of_le_length _ (member (lit "jkt") [34]) _ j (show j ≤ 7 by omega)
    refine ⟨[], ?_, by simp⟩
    rw [hshort, hopen j hj, show j - 7 = 0 by omega]
    rfl
  · obtain ⟨i, rfl⟩ : ∃ i, j = 7 + i := ⟨j - 7, by omega⟩
    have htext : (textMember (lit "jkt") jkt [125, 125]).take (7 + i) =
        member (lit "jkt") (34 :: (escape jkt ++ 34 :: 125 :: [125]).take i) :=
      @take_length_add_append _ (member (lit "jkt") [34]) _ i
    obtain ⟨r, hrun, hr⟩ := cnfLoop_jkt (r := [125]) [] (quote_not_mem_escape hjkt) i
    refine ⟨r, ?_, fun h => absurd (hr.subset h) (by decide)⟩
    rw [htext, hrun, Nat.add_sub_cancel_left]

theorem scanFrom_cnfPart_take (hjkt : (34 : UInt8) ∉ t.jkt) (hs : s.tok.jkt = []) (n : Nat) :
    scanFrom ((cnfPart t [125]).take n) s = some { s with tok.jkt := jktRead t n } := by
  have hkeep : ({ s with tok.jkt := [] } : Scan) = s := by
    rw [← hs]
  rw [cnfPart]
  split
  · next hnil =>
    have hquote : (34 : UInt8) ∉ ([125] : Bytes).take n := fun h =>
      absurd (mem_of_mem_take h) (by decide)
    rw [scanFrom_stop (nextKey_of_not_mem hquote)]
    simp [jktRead, hnil, storeText, hkeep]
  · rcases Nat.lt_or_ge n 8 with hn | hn
    · -- the cut is inside the key
      have hstop : ∀ n < 8, nextKey ((44 :: member (lit "cnf") [123]).take n) = .stop := by decide
      have hcut : (44 :: member (lit "cnf") (123 :: textMember (lit "jkt") t.jkt [125, 125])).take
        n =
          (44 :: member (lit "cnf") [123]).take n :=
        @take_append_of_le_length _ (44 :: member (lit "cnf") [123]) _ n (show n ≤ 8 by omega)
      have hread : jktRead t n = [] := by
        simp [jktRead, show n - 15 = 0 by omega, storeText]
      rw [hcut, scanFrom_stop (hstop n hn), hread, hkeep]
    · obtain ⟨j, rfl⟩ : ∃ j, n = 8 + j := ⟨n - 8, by omega⟩
      have hcut : (44 :: member (lit "cnf") (123 :: textMember (lit "jkt") t.jkt [125, 125])).take
          (8 + j) = 44 :: member (lit "cnf")
            (123 :: (textMember (lit "jkt") t.jkt [125, 125]).take j) :=
        @take_length_add_append _ (44 :: member (lit "cnf") [123]) _ j
      obtain ⟨r, hrun, hr⟩ := cnfLoop_jkt_take hjkt j
      rw [hcut, scanFrom_cnf (by rw [hs]; exact hrun) hr, jktRead, show 8 + j - 15 = j - 7 by omega]

/-- What is read from a payload cut `n` bytes into its `groups` part. -/
def groupsRead (t : Token) (n : Nat) (s : Scan) : Scan :=
  if t.groupIds = [] then { s with tok.jkt := jktRead t n }
  else if n ≤ 11 + (idsText t.groupIds).length then
    { s with tok.groupIds := (scanIds 64 ((idsText t.groupIds).take (n - 11))).1 }
  else
    { s with
      tok.groupIds := t.groupIds
      tok.jkt := jktRead t (n - (12 + (idsText t.groupIds).length)) }

/-- What is read from a payload cut `n` bytes into its `roles` part. -/
def rolesRead (t : Token) (n : Nat) (s : Scan) : Scan :=
  if n ≤ 10 + (idsText t.roleIds).length then
    { s with tok.roleIds := (scanIds 64 ((idsText t.roleIds).take (n - 10))).1 }
  else
    groupsRead t (n - (11 + (idsText t.roleIds).length)) { s with tok.roleIds := t.roleIds }

/-- What is read from a payload cut `n` bytes into its `scope` part. -/
def scopeRead (t : Token) (n : Nat) (s : Scan) : Scan :=
  if t.scope = [] then rolesRead t n s
  else if n ≤ 10 + (Json.escape t.scope).length then
    { s with tok.scope := storeText 256 ((Json.escape t.scope).take (n - 10)) [] }
  else
    rolesRead t (n - (11 + (Json.escape t.scope).length))
      { s with tok.scope := storeText 256 (Json.escape t.scope) [] }

/-- The fields of a scan that the parts behind the head fill. -/
structure Scan.Fresh (s : Scan) : Prop where
  scope : s.tok.scope = []
  roleIds : s.tok.roleIds = []
  groupIds : s.tok.groupIds = []
  jkt : s.tok.jkt = []

/-- What a payload needs for its parts to be read one by one: no quotes in its
texts, and no more ids than a token holds. -/
structure Token.Readable (t : Token) : Prop where
  scope : (34 : UInt8) ∉ t.scope
  jkt : (34 : UInt8) ∉ t.jkt
  roleIds : t.roleIds.length ≤ 64
  groupIds : t.groupIds.length ≤ 64
  oauthNonce : t.oauthNonce = []

theorem scanFrom_groupsPart_take (ht : t.Readable) (hgroups : s.tok.groupIds = [])
    (hjkt : s.tok.jkt = []) (n : Nat) :
    scanFrom ((groupsPart t (cnfPart t [125])).take n) s = some (groupsRead t n s) := by
  rw [groupsPart, groupsRead]
  split
  · exact scanFrom_cnfPart_take ht.jkt hjkt n
  · have hread := scanFrom_idsPart_take (c := .groups) (k := 11) (s := s) (r := cnfPart t [125])
      (f := fun ids => { s with tok.groupIds := ids }) (by decide) (by decide)
      (fun p => by rw [scanValue, hgroups]) (by rw [← hgroups]) ht.groupIds n
    refine hread.trans ?_
    split
    · rfl
    · rw [show 11 + (idsText t.groupIds).length + 1 = 12 + (idsText t.groupIds).length by omega]
      refine scanFrom_cnfPart_take ht.jkt ?_ _
      exact hjkt

theorem scanFrom_rolesPart_take (ht : t.Readable) (hroles : s.tok.roleIds = [])
    (hgroups : s.tok.groupIds = []) (hjkt : s.tok.jkt = []) (n : Nat) :
    scanFrom ((rolesPart t (groupsPart t (cnfPart t [125]))).take n) s =
      some (rolesRead t n s) := by
  have hread := scanFrom_idsPart_take (c := .roles) (k := 10) (s := s)
    (r := groupsPart t (cnfPart t [125]))
    (f := fun ids => { s with tok.roleIds := ids }) (by decide) (by decide)
    (fun p => by rw [scanValue, hroles]) (by rw [← hroles]) ht.roleIds n
  refine hread.trans ?_
  rw [rolesRead]
  split
  · rfl
  · rw [show 10 + (idsText t.roleIds).length + 1 = 11 + (idsText t.roleIds).length by omega]
    refine scanFrom_groupsPart_take ht ?_ ?_ _
    · exact hgroups
    · exact hjkt

/-- The tail, cut behind the opening quote of the scope or later. -/
theorem scanFrom_tailPart_take (ht : t.Readable) (hs : s.Fresh) (hn : 10 ≤ n) :
    scanFrom ((tailPart t).take n) s = some (scopeRead t n s) := by
  have hesc := quote_not_mem_escape ht.scope
  rw [tailPart, noncePart, if_pos ht.oauthNonce, scopePart, scopeRead]
  split
  · exact scanFrom_rolesPart_take ht hs.roleIds hs.groupIds hs.jkt n
  · obtain ⟨j, rfl⟩ : ∃ j, n = 10 + j := ⟨n - 10, by omega⟩
    set r := rolesPart t (groupsPart t (cnfPart t [125])) with hr
    have hcut : (44 :: textMember (lit "scope") t.scope r).take (10 + j) =
        44 :: member (Claim.name .scope) (34 :: (escape t.scope ++ 34 :: r).take j) :=
      @take_length_add_append _ (44 :: member (lit "scope") [34]) _ j
    have hvalue : ∀ p, scanValue p s .scope =
        onQuoted p s fun v => { s with tok.scope := storeText 256 v [] } := by
      intro p
      rw [scanValue, hs.scope]
    rw [hcut, Nat.add_sub_cancel_left]
    split
    · next hj =>
      rw [take_append_of_le_length (by omega)]
      exact scanFrom_text_cut .scope s _ (by decide) hvalue fun h => hesc (mem_of_mem_take h)
    · next hj =>
      obtain ⟨i, rfl⟩ : ∃ i, j = (escape t.scope).length + (i + 1) :=
        ⟨j - (escape t.scope).length - 1, by omega⟩
      rw [take_length_add_append, take_succ_cons,
        scanFrom_text .scope s _ (by decide) hvalue hesc, hr,
        show 10 + ((escape t.scope).length + (i + 1)) - (11 + (escape t.scope).length) = i by omega]
      refine scanFrom_rolesPart_take ht ?_ ?_ ?_ i
      · exact hs.roleIds
      · exact hs.groupIds
      · exact hs.jkt

theorem delim_tailPart (t : Token) : Delim (tailPart t) := by
  have hcomma : ∀ p, Delim (44 :: p) := fun p b hb => .inl (by simpa using hb.symm)
  unfold tailPart scopePart noncePart
  split <;> split <;> exact hcomma _

/-! ### A payload that is not cut -/

/-- A text without quotes, backslashes and control characters that fits its buffer. -/
def PlainText (size : Nat) (text : Bytes) : Prop :=
  (∀ b ∈ text, Json.isPlain b = true) ∧ text.length < size

/-- A claim set whose texts are plain, with no more ids than a token holds. -/
structure Token.Plain (t : Token) : Prop where
  jti : t.jti.all Json.isPlainAscii = true
  jti_length : t.jti.length < 64
  scope : PlainText 256 t.scope
  oauthNonce : PlainText 128 t.oauthNonce
  jkt : PlainText 64 t.jkt
  roleIds : t.roleIds.length ≤ 64
  groupIds : t.groupIds.length ≤ 64

theorem PlainText.quote_not_mem (h : PlainText size text) : (34 : UInt8) ∉ text :=
  fun hmem => absurd (h.1 34 hmem) (by decide)

theorem scanFrom_optional (c : Claim) {f : Bytes → Scan}
    (h : PlainText size text)
    (hc : ∀ p, scanValue p s c = onQuoted p s fun v => f (storeText size v []))
    (hf : f [] = s) :
    scanFrom (if text = [] then r else 44 :: textMember c.name text r) s = scanFrom r (f text) := by
  split
  · next hnil => rw [hnil, hf]
  · rw [textMember, escape_of_plain h.1, scanFrom_text c s _ (by decide) hc h.quote_not_mem,
      storeText, if_pos h.2]

theorem scanFrom_cnfPart (h : PlainText 64 t.jkt) (hs : s.tok.jkt = []) :
    scanFrom (cnfPart t [125]) s = some { s with tok.jkt := t.jkt } := by
  have hread :=
    scanFrom_cnfPart_take h.quote_not_mem hs ((cnfPart t [125]).length + 15 + t.jkt.length)
  rw [take_of_length_le (by omega), jktRead, escape_of_plain h.1,
    take_of_length_le (by omega), storeText, if_pos h.2] at hread
  exact hread

/-- The scanner gives back the claims of every payload the issuer writes. -/
theorem scan_inverts_write {t : Token} {text : Bytes} (ht : t.Plain)
    (hwrite : (Json.obj (payloadMembers t)).write = some text) :
    scanJwtPayload text .zero = some (.ok, { t with tokenStr := [], rawRefreshToken := [] }) := by
  obtain rfl : payloadJson t = text := by
    rw [write_payload] at hwrite
    split at hwrite <;> cases hwrite
    rfl
  have hscan : scanFrom (payloadJson t) ⟨.zero, false, false⟩ =
      some ⟨{ t with tokenStr := [], rawRefreshToken := [] }, true, true⟩ := by
    rw [payloadJson, scanFrom_headPart .zero ht.jti ht.jti_length (delim_tailPart t), tailPart]
    set head := headState .zero t
    refine (scanFrom_optional .scope (s := head) (f := fun v => { head with tok.scope := v })
      ht.scope
      (fun _ => rfl) rfl).trans ?_
    refine (scanFrom_optional .nonce
      (f := fun v => { head with tok.scope := t.scope, tok.oauthNonce := v })
      ht.oauthNonce (fun _ => rfl) rfl).trans ?_
    refine (scanFrom_ids .roles _ _ (by decide) (fun _ => by rw [scanValue]; rfl) ht.roleIds).trans
      ?_
    rw [groupsPart]
    split
    · next hnil =>
      rw [scanFrom_cnfPart ht.jkt rfl]
      simp [head, headState, Token.zero, hnil]
    · refine (scanFrom_ids .groups _ _ (by decide) (fun _ => by rw [scanValue]; rfl)
        ht.groupIds).trans ?_
      exact scanFrom_cnfPart ht.jkt rfl
  rw [scanJwtPayload, cstr_eq_self (nul_not_mem_payloadJson t)]
  exact congrArg (Option.map _) hscan

/-! ## §2 Comparing what is read with the claims -/

/-- The bytes of the head. -/
def headSize (t : Token) : Nat :=
  72 + t.jti.length + (decimal t.userId.toNat).length +
    (decimal t.issuedAt.toUInt64.toNat).length + (decimal t.expiresAt.toUInt64.toNat).length +
    (decimal t.nonce.toNat).length

/-- The bytes of the two id parts up to the last id. -/
def listsSize (t : Token) : Nat :=
  10 + (idsText t.roleIds).length +
    if t.groupIds = [] then 0 else 12 + (idsText t.groupIds).length

theorem headPart_append (t : Token) (r : Bytes) : headPart t [] ++ r = headPart t r := by
  simp [headPart, textMember, numberMember, member]

theorem length_headPart (hjti : t.jti.all Json.isPlainAscii = true) :
    (headPart t []).length = headSize t := by
  have hesc := (plainAscii_spec hjti).2
  simp only [headPart, textMember, numberMember, member, hesc, escape_fixed, headSize]
  simp [lit]
  omega

theorem headSize_le (hjti : t.jti.length ≤ 32) : headSize t ≤ 184 := by
  have hsub := length_decimal_toNat_le t.userId
  have hiat := length_decimal_toNat_le t.issuedAt.toUInt64
  have hexp := length_decimal_toNat_le t.expiresAt.toUInt64
  have htnc := length_decimal_toNat_le t.nonce
  rw [headSize]
  omega

theorem scanFrom_issuedPayload (hjti : t.jti.all Json.isPlainAscii = true)
    (hlen : t.jti.length ≤ 32) (out : Token) :
    scanFrom (issuedPayload t) ⟨out, false, false⟩ =
      scanFrom ((tailPart t).take (1533 - headSize t)) (headState out t) := by
  have hsize := headSize_le hlen
  have hhead := length_headPart hjti
  rw [issuedPayload, payloadJson, ← headPart_append, take_append,
    take_of_length_le (by omega), headPart_append, hhead,
    scanFrom_headPart out hjti (by omega) ((delim_tailPart t).take _)]

theorem storeText_eq_iff {value text : Bytes} (hlen : text.length < size)
    (hnil : text = [] → value = []) : storeText size value [] = text ↔ value = text := by
  rw [storeText]
  split
  · rfl
  · next hlong => exact ⟨fun h => (hnil h.symm).trans h, fun h => absurd (h ▸ hlen) hlong⟩

theorem jktRead_eq_iff (hlen : t.jkt.length < 64) (n : Nat) :
    jktRead t n = t.jkt ↔ (Json.escape t.jkt).take (n - 15) = t.jkt :=
  storeText_eq_iff hlen fun h => by simp [h]

/-- The id parts and the thumbprint come back when all ids and enough of the
thumbprint are in front of the cut. -/
theorem groupsRead_eq_iff (ht : t.Readable) (hlen : t.jkt.length < 64)
    (hgroups : s.tok.groupIds = []) (hjkt : s.tok.jkt = []) (n : Nat) :
    (groupsRead t n s).tok.groupIds = t.groupIds ∧ (groupsRead t n s).tok.jkt = t.jkt ↔
      (if t.groupIds = [] then 0 else 11 + (idsText t.groupIds).length) ≤ n ∧
        (Json.escape t.jkt).take
          (n - (if t.groupIds = [] then 15 else 27 + (idsText t.groupIds).length)) = t.jkt := by
  rw [groupsRead]
  by_cases hnil : t.groupIds = []
  · simp [hnil, hgroups, jktRead_eq_iff hlen]
  · have hpos : 0 < (idsText t.groupIds).length := by
      obtain ⟨i, ids, hids⟩ := exists_cons_of_ne_nil hnil
      rw [hids, idsText_cons, length_append]
      have := length_pos_iff.mpr (decimal_ne_nil i.toNat)
      omega
    simp only [hnil, if_false]
    split
    · next hn =>
      have hzero : n - (27 + (idsText t.groupIds).length) = 0 := by omega
      simp only [hjkt, scanIds_take_eq_iff ht.groupIds, hzero, take_zero]
      exact and_congr_left fun _ => by omega
    · next hn =>
      simp only [jktRead_eq_iff hlen, true_and,
        show n - (12 + (idsText t.groupIds).length) - 15 =
          n - (27 + (idsText t.groupIds).length) by omega]
      exact (and_iff_right (by omega)).symm

theorem rolesRead_eq_iff (ht : t.Readable) (hlen : t.jkt.length < 64)
    (hgroups : s.tok.groupIds = []) (hjkt : s.tok.jkt = []) (hn : 10 ≤ n) :
    (rolesRead t n s).tok.roleIds = t.roleIds ∧ (rolesRead t n s).tok.groupIds = t.groupIds ∧
        (rolesRead t n s).tok.jkt = t.jkt ↔
      listsSize t ≤ n ∧ (Json.escape t.jkt).take (n - (listsSize t + 16)) = t.jkt := by
  rw [rolesRead]
  split
  · next hcut =>
    have hzero : n - (listsSize t + 16) = 0 := by
      rw [listsSize]
      omega
    rw [hzero, take_zero, listsSize]
    simp only [scanIds_take_eq_iff ht.roleIds, hgroups, hjkt]
    by_cases hnil : t.groupIds = []
    · simp only [hnil, if_true, true_and]
      exact and_congr_left fun _ => by omega
    · simp only [hnil, if_false, Ne.symm hnil, false_and, and_false, false_iff, not_and]
      intro h
      omega
  · next hcut =>
    have hrest := groupsRead_eq_iff (s := { s with tok.roleIds := t.roleIds }) ht hlen hgroups hjkt
      (n - (11 + (idsText t.roleIds).length))
    have hroles : (groupsRead t (n - (11 + (idsText t.roleIds).length))
        { s with tok.roleIds := t.roleIds }).tok.roleIds = t.roleIds := by
      unfold groupsRead
      split
      · rfl
      · split <;> rfl
    rw [hrest, listsSize]
    simp only [hroles, true_and]
    by_cases hnil : t.groupIds = []
    · simp only [hnil, if_true, Nat.zero_le, true_and]
      rw [show n - (11 + (idsText t.roleIds).length) - 15 =
        n - (10 + (idsText t.roleIds).length + 0 + 16) by omega]
      exact (and_iff_right (by omega)).symm
    · simp only [hnil, if_false]
      rw [show n - (11 + (idsText t.roleIds).length) - (27 + (idsText t.groupIds).length) =
        n - (10 + (idsText t.roleIds).length + (12 + (idsText t.groupIds).length) + 16) by omega]
      exact and_congr_left fun _ => by omega

theorem rolesRead_frame (t : Token) (n : Nat) (s : Scan) :
    ∃ roles groups jkt, rolesRead t n s =
      { s with tok.roleIds := roles, tok.groupIds := groups, tok.jkt := jkt } := by
  unfold rolesRead groupsRead
  split
  · exact ⟨_, _, _, rfl⟩
  · split
    · exact ⟨_, _, _, rfl⟩
    · split <;> exact ⟨_, _, _, rfl⟩

theorem scopeRead_frame (t : Token) (n : Nat) (s : Scan) :
    ∃ scope roles groups jkt, scopeRead t n s =
      { s with
        tok.scope := scope, tok.roleIds := roles, tok.groupIds := groups, tok.jkt := jkt } := by
  unfold scopeRead
  split
  · obtain ⟨roles, groups, jkt, h⟩ := rolesRead_frame t n s
    exact ⟨_, roles, groups, jkt, h⟩
  · split
    · exact ⟨_, _, _, _, rfl⟩
    · obtain ⟨roles, groups, jkt, h⟩ := rolesRead_frame t
        (n - (11 + (escape t.scope).length))
        { s with tok.scope := storeText 256 (escape t.scope) [] }
      exact ⟨_, roles, groups, jkt, h⟩

theorem scope_rolesRead (t : Token) (n : Nat) (s : Scan) :
    (rolesRead t n s).tok.scope = s.tok.scope := by
  obtain ⟨roles, groups, jkt, h⟩ := rolesRead_frame t n s
  rw [h]

/-- The bytes of the scope part, when the scope is written as it is. -/
def scopeSize (t : Token) : Nat := if t.scope = [] then 0 else 11 + t.scope.length

/-- The parts behind the head come back exactly when nothing of them is escaped
and all ids and enough of the thumbprint are in front of the cut. -/
theorem scopeRead_eq_iff (ht : t.Readable) (hs : s.Fresh) (hscope : t.scope.length < 256)
    (hlen : t.jkt.length < 64) (hn : 300 ≤ n) :
    (scopeRead t n s).tok.scope = t.scope ∧ (scopeRead t n s).tok.roleIds = t.roleIds ∧
        (scopeRead t n s).tok.groupIds = t.groupIds ∧ (scopeRead t n s).tok.jkt = t.jkt ↔
      Json.escape t.scope = t.scope ∧ scopeSize t + listsSize t ≤ n ∧
        (Json.escape t.jkt).take (n - (scopeSize t + listsSize t + 16)) = t.jkt := by
  rw [scopeRead, scopeSize]
  split
  · next hnil =>
    rw [scope_rolesRead, hs.scope, hnil,
      rolesRead_eq_iff ht hlen hs.groupIds hs.jkt (by omega), Nat.zero_add]
    simp [escape]
  · next hne =>
    split
    · next hcut =>
      -- the scope alone fills the payload: too long to be stored
      have hlong : ¬((escape t.scope).take (n - 10)).length < 256 := by
        rw [length_take]
        omega
      simp only [storeText, hlong, if_false, Ne.symm hne, false_and, false_iff, not_and]
      intro hesc
      rw [hesc] at hcut
      omega
    · next hcut =>
      rw [scope_rolesRead]
      have hstored := @storeText_eq_iff _ (escape t.scope) _ hscope (absurd · hne)
      refine (and_congr_left' hstored).trans (and_congr_right fun hesc => ?_)
      have hlists := rolesRead_eq_iff
        (s := { s with tok.scope := storeText 256 (escape t.scope) [] }) ht hlen hs.groupIds
        hs.jkt (n := n - (11 + (escape t.scope).length)) (by rw [hesc]; omega)
      refine hlists.trans ?_
      rw [hesc] at hcut ⊢
      rw [show n - (11 + t.scope.length) - (listsSize t + 16) =
        n - (11 + t.scope.length + listsSize t + 16) by omega]
      exact and_congr_left fun _ => by omega

/-! ## §3 The round trip -/

/-- The claims of a decoded token are those of the issuing call. -/
structure SameClaims (m : TokenManager) (a : IssueArgs) (env : IssueEnv) (out : Token) : Prop where
  userId : out.userId = a.userId
  roleIds : out.roleIds = a.roleIds
  groupIds : out.groupIds = a.groupIds
  scope : out.scope = a.scopeText
  nonce : out.nonce = m.getNonce a.userId
  issuedAt : out.issuedAt = env.now
  expiresAt : out.expiresAt = env.now + actualTtl m a.ttlMs
  jkt : out.jkt = a.jktText

/-- The bytes of the payload up to its last id, for a scope that is written as it is. -/
def claimsSize (m : TokenManager) (a : IssueArgs) (env : IssueEnv) : Nat :=
  88 + (hexNumber env.now).length + (decimal a.userId.toNat).length +
    (decimal env.now.toUInt64.toNat).length +
    (decimal (env.now + actualTtl m a.ttlMs).toUInt64.toNat).length +
    (decimal (m.getNonce a.userId).toNat).length +
    (if a.scopeText = [] then 0 else 11 + a.scopeText.length) +
    (10 + (idsText a.roleIds).length +
      if a.groupIds = [] then 0 else 12 + (idsText a.groupIds).length)

/-- The calls whose claims a token can carry. `jkt_cut` is the plain statement
that the thumbprint is in front of the cut and written as it is, but for one
accident: a cut right behind its last byte, written or escaped. -/
structure Fits (m : TokenManager) (a : IssueArgs) (env : IssueEnv) : Prop where
  scope_plain : ∀ b ∈ a.scopeText, Json.isPlain b = true
  scope_length : a.scopeText.length ≤ 255
  roleIds : a.roleIds.length ≤ 64
  groupIds : a.groupIds.length ≤ 64
  size : claimsSize m a env ≤ 1533
  jkt_length : a.jktText.length ≤ 63
  jkt_quote : (34 : UInt8) ∉ a.jktText
  jkt_cut : (Json.escape a.jktText).take (1533 - (claimsSize m a env + 16)) = a.jktText

/-- A manager whose keys are those of another one. -/
structure TokenManager.SameKeys (m m' : TokenManager) : Prop where
  mode : m'.mode = m.mode
  slots : m'.slots = m.slots
  activeSlot : m'.activeSlot = m.activeSlot

theorem TokenManager.KeysOk.sameKeys {m' : TokenManager} (h : m.KeysOk k)
    (hkeys : m.SameKeys m') : m'.mode = .hs256 ∧ m'.slotIndexByKid (kidOf k) = some m.activeSlot ∧
      (m'.slots m.activeSlot).secret = m.active.secret := by
  refine ⟨hkeys.mode.trans h.mode, ?_, by rw [hkeys.slots]; rfl⟩
  rw [← h.slotIndexByKid_active, slotIndexByKid, slotIndexByKid, hkeys.slots]

theorem scope_issueClaims (h : a.scopeText.length ≤ 255) :
    (issueClaims m a env).scope = a.scopeText :=
  take_of_length_le h

theorem jkt_issueClaims (h : a.jktText.length ≤ 63) : (issueClaims m a env).jkt = a.jktText :=
  take_of_length_le h

theorem claimsSize_eq
    (h : a.scopeText.length ≤ 255) : claimsSize m a env = headSize (issueClaims m a env) +
      (scopeSize (issueClaims m a env) + listsSize (issueClaims m a env)) := by
  have hlists : listsSize (issueClaims m a env) = 10 + (idsText a.roleIds).length +
      if a.groupIds = [] then 0 else 12 + (idsText a.groupIds).length := rfl
  rw [claimsSize, headSize, length_jti, scopeSize, scope_issueClaims h, hlists]
  simp only [issueClaims]
  omega

theorem verdict_scopeRead {now : Int64} (hnow : now ≤ t.expiresAt) (n : Nat) :
    verdict now (scopeRead t n (headState out t)) = .ok (scopeRead t n (headState out t)).tok := by
  obtain ⟨scope, roles, groups, jkt, h⟩ := scopeRead_frame t n (headState out t)
  have hexp : ¬now > t.expiresAt := by
    rw [gt_iff_lt, Int64.not_lt]
    exact hnow
  rw [h, verdict]
  simp [headState, hexp]

theorem readable_issueClaims (hscope : a.scopeText.length ≤ 255) (hjkt : a.jktText.length ≤ 63)
    (hscopeQuote : (34 : UInt8) ∉ a.scopeText) (hjktQuote : (34 : UInt8) ∉ a.jktText)
    (hroles : a.roleIds.length ≤ 64) (hgroups : a.groupIds.length ≤ 64) :
    (issueClaims m a env).Readable where
  scope := by rwa [scope_issueClaims hscope]
  jkt := by rwa [jkt_issueClaims hjkt]
  roleIds := hroles
  groupIds := hgroups
  oauthNonce := rfl

/-- Claims that came back can be read: what a scan stores is within the limits. -/
theorem SameClaims.readable (h : SameClaims m a env s.tok) (hs : s.Bounds) :
    (issueClaims m a env).Readable ∧ a.scopeText.length ≤ 255 ∧ a.jktText.length ≤ 63 := by
  obtain ⟨hscope, hscopeLen⟩ := hs.scope
  obtain ⟨hjkt, hjktLen⟩ := hs.jkt
  rw [h.scope] at hscope hscopeLen
  rw [h.jkt] at hjkt hjktLen
  exact ⟨readable_issueClaims (by omega) (by omega) hscope hjkt (h.roleIds ▸ hs.roles)
    (h.groupIds ▸ hs.groups), by omega, by omega⟩

theorem Fits.readable (h : Fits m a env) : (issueClaims m a env).Readable := by
  refine readable_issueClaims h.scope_length h.jkt_length (fun hmem => ?_) h.jkt_quote h.roleIds
    h.groupIds
  have hplain := h.scope_plain 34 hmem
  revert hplain
  decide

theorem length_jti_le (m : TokenManager) (a : IssueArgs) (env : IssueEnv) :
    (issueClaims m a env).jti.length ≤ 32 := by
  have hle := length_hexNumber_le env.now
  rw [length_jti]
  omega

theorem scanFrom_issueClaims {str : Bytes} (ht : (issueClaims m a env).Readable)
    (hout : (headState (startScan str).tok (issueClaims m a env)).Fresh) :
    scanFrom (issuedPayload (issueClaims m a env)) (startScan str) =
      some (scopeRead (issueClaims m a env) (1533 - headSize (issueClaims m a env))
        (headState (startScan str).tok (issueClaims m a env))) :=
  (scanFrom_issuedPayload (plainAscii_jti m a env) (length_jti_le m a env) _).trans
    (scanFrom_tailPart_take ht hout (by
      have hsize := headSize_le (length_jti_le m a env)
      omega))

theorem expiresAt_tokenIssue {c : Crypto} {tok : Token} (hk : m.KeysOk k)
    (hissue : tokenIssue c m a env = .ok tok) :
    tok.expiresAt = (issueClaims m a env).expiresAt := by
  rw [tokenIssue_ok hk hissue]

/-- What is read from the payload of readable claims is the claims, exactly when they fit. -/
theorem sameClaims_scopeRead_iff (ht : (issueClaims m a env).Readable)
    (hout : (headState out (issueClaims m a env)).Fresh) (hscope : a.scopeText.length ≤ 255)
    (hjkt : a.jktText.length ≤ 63) :
    SameClaims m a env (scopeRead (issueClaims m a env) (1533 - headSize (issueClaims m a env))
      (headState out (issueClaims m a env))).tok ↔ Fits m a env := by
  have hhead := headSize_le (length_jti_le m a env)
  have hsize := @claimsSize_eq m a env hscope
  have hscopeEq : (issueClaims m a env).scope = a.scopeText := scope_issueClaims hscope
  have hjktEq : (issueClaims m a env).jkt = a.jktText := jkt_issueClaims hjkt
  have hiff := scopeRead_eq_iff (n := 1533 - headSize (issueClaims m a env)) ht hout
    (by rw [hscopeEq]; omega) (by rw [hjktEq]; omega) (by omega)
  rw [hscopeEq, hjktEq] at hiff
  rw [show 1533 - headSize (issueClaims m a env) - (scopeSize (issueClaims m a env) +
    listsSize (issueClaims m a env) + 16) = 1533 - (claimsSize m a env + 16) by omega] at hiff
  constructor
  · intro h
    obtain ⟨hesc, hfit, hcut⟩ := hiff.mp ⟨h.scope, h.roleIds, h.groupIds, h.jkt⟩
    exact ⟨plain_of_escape_eq hesc, hscope, ht.roleIds, ht.groupIds, by omega, hjkt,
      hjktEq ▸ ht.jkt, hcut⟩
  · intro h
    obtain ⟨hs, hr, hg, hj⟩ :=
      hiff.mpr ⟨escape_of_plain h.scope_plain, by have := h.size; omega, h.jkt_cut⟩
    obtain ⟨scope, roles, groups, jkt, hframe⟩ := scopeRead_frame (issueClaims m a env)
      (1533 - headSize (issueClaims m a env)) (headState out (issueClaims m a env))
    refine ⟨?_, hr, hg, hs, ?_, ?_, ?_, hj⟩ <;> rw [hframe] <;> rfl

/-- An issued token gives back exactly its claims, for as long as the keys are the
same and it has not expired, if and only if its claims fit. -/
theorem tokenVerify_gives_claims_iff {c : Crypto} {m m' : TokenManager} {a : IssueArgs}
    {env : IssueEnv} {tok : Token} {now : Int64} (hm : m.Reachable)
    (hissue : tokenIssue c m a env = .ok tok) (hkeys : m.SameKeys m') (hnow : now ≤ tok.expiresAt)
    (hhex : ∀ h p s, splitToken tok.tokenStr = some (h, p, s) → isHexStr s = false) :
    (∃ out, tokenVerify c m' now tok.tokenStr = some (.ok out) ∧ SameClaims m a env out) ↔
      Fits m a env := by
  obtain ⟨k, hk⟩ := TokenManager.keysOk_of_reachable hm
  obtain ⟨hmode, hroute, hsecret⟩ := hk.sameKeys hkeys
  rw [tokenVerify_of_tokenIssue hk hissue hmode hroute hsecret hhex]
  have hout : (headState (startScan tok.tokenStr).tok (issueClaims m a env)).Fresh :=
    ⟨rfl, rfl, rfl, rfl⟩
  constructor
  · rintro ⟨out, hverify, hsame⟩
    obtain ⟨s, hscan, hverdict⟩ := map_eq_some_iff.mp hverify
    obtain ⟨rfl, -⟩ := verdict_ok hverdict
    obtain ⟨ht, hs, hj⟩ := hsame.readable (scanFrom_bounds (bounds_startScan _) hscan)
    rw [scanFrom_issueClaims ht hout, some.injEq] at hscan
    rw [← hscan] at hsame
    exact (sameClaims_scopeRead_iff ht hout hs hj).mp hsame
  · intro h
    have ht := h.readable
    refine ⟨_, ?_, (sameClaims_scopeRead_iff ht hout h.scope_length h.jkt_length).mpr h⟩
    rw [scanFrom_issueClaims ht hout, map_some, verdict_scopeRead]
    exact expiresAt_tokenIssue hk hissue ▸ hnow

/-! ## §4 A token of a fresh manager -/

/-- Two roles, a group, a scope and a thumbprint. -/
def plainArgs : IssueArgs where
  userId := 7
  roleIds := [1, 2]
  groupIds := [3]
  scope := some (lit "read write")
  ttlMs := 0
  dpopJkt := some (lit "thumb")

/-- The claims of these arguments, with a nonce. -/
def plainClaims : Token :=
    { issueClaims freshManager plainArgs freshEnv with oauthNonce := lit "n-1" }

theorem plainClaims_inverted : ∃ text, (Json.obj (payloadMembers plainClaims)).write = some text ∧
    scanJwtPayload text .zero = some (.ok, plainClaims) := by
  have hwrite := (write_payload plainClaims).trans (if_pos (by decide +kernel))
  have hplain : plainClaims.Plain :=
    ⟨by decide +kernel, by decide +kernel, ⟨forall_of_all (by decide +kernel), by decide +kernel⟩,
      ⟨forall_of_all (by decide), by decide⟩,
        ⟨forall_of_all (by decide +kernel), by decide +kernel⟩,
      by decide, by decide⟩
  exact ⟨_, hwrite, scan_inverts_write hplain hwrite⟩

theorem fits_plainArgs : Fits freshManager plainArgs freshEnv where
  scope_plain := forall_of_all (by decide +kernel)
  scope_length := by decide +kernel
  roleIds := by decide
  groupIds := by decide
  size := by decide +kernel
  jkt_length := by decide +kernel
  jkt_quote := by decide +kernel
  jkt_cut := by decide +kernel

theorem plainArgs_roundTrip :
    ∃ tok out, tokenIssue onesCrypto freshManager plainArgs freshEnv = .ok tok ∧
      tokenVerify onesCrypto freshManager 1000 tok.tokenStr = some (.ok out) ∧
      SameClaims freshManager plainArgs freshEnv out := by
  have hk := (TokenManager.started_spec (.init tokenManagerInit_fresh)).1
  obtain ⟨tok, htok⟩ := tokenIssue_ascii onesCrypto (a := plainArgs) freshEnv hk
    (forall_of_all (by decide)) (forall_of_all (by decide))
  have hnow : (1000 : Int64) ≤ tok.expiresAt := by
    rw [expiresAt_tokenIssue hk htok]
    decide
  obtain ⟨out, hverify, hsame⟩ := (tokenVerify_gives_claims_iff reachable_fresh htok
    ⟨rfl, rfl, rfl⟩ hnow (isHexStr_issued_onesCrypto hk htok)).mpr fits_plainArgs
  exact ⟨tok, out, htok, hverify, hsame⟩

/-- The scope `a"b`. -/
def quotedArgs : IssueArgs where
  userId := 7
  roleIds := [1]
  groupIds := []
  scope := some [97, 34, 98]
  ttlMs := 0
  dpopJkt := none

/-- A scope with a quote is issued and does not come back: the writer escapes the
quote and the scanner ends the scope there. -/
theorem quotedArgs_lost :
    ∃ tok, tokenIssue onesCrypto freshManager quotedArgs freshEnv = .ok tok ∧
      (1000 : Int64) ≤ tok.expiresAt ∧
      (∀ h p s, splitToken tok.tokenStr = some (h, p, s) → isHexStr s = false) ∧
      ¬∃ out, tokenVerify onesCrypto freshManager 1000 tok.tokenStr = some (.ok out) ∧
        SameClaims freshManager quotedArgs freshEnv out := by
  have hk := (TokenManager.started_spec (.init tokenManagerInit_fresh)).1
  obtain ⟨tok, htok⟩ := tokenIssue_ascii onesCrypto (a := quotedArgs) freshEnv hk
    (forall_of_all (by decide)) (forall_of_all (by decide))
  have hhex := isHexStr_issued_onesCrypto hk htok
  refine ⟨tok, htok, ?_, hhex, ?_⟩
  · rw [expiresAt_tokenIssue hk htok]
    decide
  · rintro ⟨out, hverify, hsame⟩
    rw [tokenVerify_of_tokenIssue hk htok rfl hk.slotIndexByKid_active rfl hhex] at hverify
    obtain ⟨s, hscan, hverdict⟩ := map_eq_some_iff.mp hverify
    obtain ⟨rfl, -⟩ := verdict_ok hverdict
    obtain ⟨ht, -⟩ := hsame.readable (scanFrom_bounds (bounds_startScan _) hscan)
    exact ht.scope (by decide)

end SsoSystem
