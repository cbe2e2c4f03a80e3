/-
SsoSystem.Token.PayloadTheorems — the texts `token_issue` writes: the header
with the kid and the payload with the claims.

`payloadJson` spells the payload out as one text, each part followed by the
rest, which is the form the scanner lemmas read. `write_payload` says that it
is what the JSON writer produces, and that nothing but a scope, nonce or
thumbprint that is not UTF-8 can make the writer fail.
-/
import SsoSystem.Token.Manager
import SsoSystem.Token.ScannerTheorems

namespace SsoSystem

open CMem Decimal Loop List Option Json

/-! ## §1 The payload as one text -/

/-- `"name":"text"` and what follows it. -/
def textMember (name text r : Bytes) : Bytes := member name (34 :: (Json.escape text ++ 34 :: r))

/-- `"name":[ids]` and what follows it. -/
def idsMember (name : Bytes) (ids : List UInt64) (r : Bytes) : Bytes :=
  member name (91 :: (idsText ids ++ 93 :: r))

/-- `"name":number` and what follows it. -/
def numberMember (name : Bytes) (n : UInt64) (r : Bytes) : Bytes :=
    member name (decimal n.toNat ++ r)

variable (t : Token) (r : Bytes)

/-- The members every payload starts with. -/
def headPart : Bytes :=
  123 :: textMember (lit "jti") t.jti (44 :: numberMember (lit "sub") t.userId
    (44 :: numberMember (lit "iat") t.issuedAt.toUInt64
      (44 :: numberMember (lit "exp") t.expiresAt.toUInt64
        (44 :: numberMember (lit "tnc") t.nonce
          (44 :: textMember (lit "iss") (lit "sso-server")
            (44 :: textMember (lit "aud") (lit "sso-api") r))))))

def scopePart : Bytes :=
  if t.scope = [] then r else 44 :: textMember (lit "scope") t.scope r

def noncePart : Bytes :=
  if t.oauthNonce = [] then r else 44 :: textMember (lit "nonce") t.oauthNonce r

def rolesPart : Bytes := 44 :: idsMember (lit "roles") t.roleIds r

def groupsPart : Bytes :=
  if t.groupIds = [] then r else 44 :: idsMember (lit "groups") t.groupIds r

def cnfPart : Bytes :=
  if t.jkt = [] then r
  else 44 :: member (lit "cnf") (123 :: textMember (lit "jkt") t.jkt (125 :: r))

/-- The members behind the head, and the closing brace. -/
def tailPart : Bytes :=
  scopePart t (noncePart t (rolesPart t (groupsPart t (cnfPart t [125]))))

/-- The payload. -/
def payloadJson : Bytes := headPart t (tailPart t)

/-- The texts of a payload that are not known to be ASCII. -/
def payloadValid : Bool :=
  Json.utf8Valid t.jti && Json.utf8Valid t.scope && Json.utf8Valid t.oauthNonce &&
    Json.utf8Valid t.jkt

/-- yyjson writes a string in quotes, escaped, and refuses one that is not UTF-8. -/
theorem writeStr_eq (s : Bytes) :
    Json.writeStr s = if Json.utf8Valid s then some (34 :: (Json.escape s ++ [34])) else none := by
  rw [writeStr]
  split <;> simp

/-- Members are written one after the other, and one that cannot be written fails all. -/
theorem writeMembers_append (a b : List (Bytes × Json)) :
    Json.writeMembers (a ++ b) =
      (Json.writeMembers a).bind fun ta => (Json.writeMembers b).map (ta ++ ·) := by
  induction a with
  | nil => simp [writeMembers]
  | cons x a ih =>
    obtain ⟨k, v⟩ := x
    simp only [cons_append, writeMembers, ih]
    cases writeStr k <;> cases write v <;> cases writeMembers a <;> cases writeMembers b <;> simp

variable {k name r kid : Bytes} {t : Token}

/-- With a plain name, a member fails only if its value does. -/
theorem writeMembers_cons (hk : k.all Json.isPlainAscii = true) (v : Json)
    (ms : List (Bytes × Json)) :
    Json.writeMembers ((k, v) :: ms) =
      (Json.write v).bind fun t => (Json.writeMembers ms).map (member k t :: ·) := by
  simp [writeMembers, writeStr_of_plainAscii hk, member]

/-- A string value, as in `writeStr_eq`. -/
theorem write_str (s : Bytes) :
    Json.write (.str s) =
      if Json.utf8Valid s then some (34 :: (Json.escape s ++ [34])) else none := by
  rw [write, writeStr_eq]

/-- An array of ids can always be written. -/
theorem write_ids (ids : List UInt64) :
    Json.write (.arr (ids.map Json.uint)) = some (91 :: (idsText ids ++ [93])) := by
  simp [write, writeElems_uint, idsText]

/-- The payload's member texts. -/
def payloadTexts (t : Token) : List Bytes :=
  [textMember (lit "jti") t.jti [], numberMember (lit "sub") t.userId [],
    numberMember (lit "iat") t.issuedAt.toUInt64 [],
    numberMember (lit "exp") t.expiresAt.toUInt64 [], numberMember (lit "tnc") t.nonce [],
    textMember (lit "iss") (lit "sso-server") [], textMember (lit "aud") (lit "sso-api") []] ++
  (if t.scope = [] then [] else [textMember (lit "scope") t.scope []]) ++
  (if t.oauthNonce = [] then [] else [textMember (lit "nonce") t.oauthNonce []]) ++
  [idsMember (lit "roles") t.roleIds []] ++
  (if t.groupIds = [] then [] else [idsMember (lit "groups") t.groupIds []]) ++
  (if t.jkt = [] then []
   else [member (lit "cnf") (123 :: textMember (lit "jkt") t.jkt [125])])

/-- A text claim fails exactly if its text is not UTF-8. -/
theorem writeMembers_text (hk : k.all Json.isPlainAscii = true) (s : Bytes) :
    Json.writeMembers [(k, .str s)] =
      if Json.utf8Valid s then some [textMember k s []] else none := by
  rw [writeMembers_cons hk, write_str]
  split <;> simp [writeMembers, textMember]

/-- `scope` and the like are left out if empty. -/
theorem writeMembers_optional (hk : k.all Json.isPlainAscii = true) (s : Bytes) :
    Json.writeMembers (if s = [] then [] else [(k, .str s)]) =
      if Json.utf8Valid s then some (if s = [] then [] else [textMember k s []]) else none := by
  by_cases hs : s = []
  · simp [hs, writeMembers, utf8Valid]
  · simp [hs, writeMembers_text hk]

/-- The role and group ids never make the payload fail. -/
theorem writeMembers_ids (hk : k.all Json.isPlainAscii = true) (ids : List UInt64) :
    Json.writeMembers [(k, .arr (ids.map Json.uint))] = some [idsMember k ids []] := by
  rw [writeMembers_cons hk, write_ids]
  simp [writeMembers, idsMember]

/-- `cnf` is an object with the one member `jkt`, and is left out for an unbound token. -/
theorem writeMembers_cnf (jkt : Bytes) :
    Json.writeMembers (if jkt = [] then [] else [(lit "cnf", .obj [(lit "jkt", .str jkt)])]) =
      if Json.utf8Valid jkt then
        some
          (if jkt = [] then [] else [member (lit "cnf") (123 :: textMember (lit "jkt") jkt [125])])
      else none := by
  by_cases hjkt : jkt = []
  · simp [hjkt, writeMembers, utf8Valid]
  · rw [if_neg hjkt, writeMembers_cons (k := (lit "cnf")) (by decide), write,
      writeMembers_text (k := (lit "jkt")) (by decide)]
    cases utf8Valid jkt <;> simp [writeMembers, intercalate, textMember, member, hjkt]

/-- The seven claims every token has; of these only `jti` could fail. -/
theorem writeMembers_head (t : Token) :
    Json.writeMembers
      [(lit "jti", .str t.jti), (lit "sub", .uint t.userId), (lit "iat", .uint t.issuedAt.toUInt64),
        (lit "exp", .uint t.expiresAt.toUInt64), (lit "tnc", .uint t.nonce),
        (lit "iss", .str (lit "sso-server")), (lit "aud", .str (lit "sso-api"))] =
      if Json.utf8Valid t.jti then
        some [textMember (lit "jti") t.jti [], numberMember (lit "sub") t.userId [],
          numberMember (lit "iat") t.issuedAt.toUInt64 [],
          numberMember (lit "exp") t.expiresAt.toUInt64 [], numberMember (lit "tnc") t.nonce [],
          textMember (lit "iss") (lit "sso-server") [], textMember (lit "aud") (lit "sso-api") []]
      else none := by
  have hiss := (plainAscii_spec (s := lit "sso-server") (by decide)).1
  have haud := (plainAscii_spec (s := lit "sso-api") (by decide)).1
  rw [writeMembers_cons (k := (lit "jti")) (by decide),
    writeMembers_cons (k := (lit "sub")) (by decide),
    writeMembers_cons (k := (lit "iat")) (by decide),
    writeMembers_cons (k := (lit "exp")) (by decide),
    writeMembers_cons (k := (lit "tnc")) (by decide),
    writeMembers_cons (k := (lit "iss")) (by decide),
    writeMembers_text (k := (lit "aud")) (by decide), write_str, write_str]
  simp only [hiss, haud, if_true, uint, write, bind_some, map_some]
  split <;> simp [textMember, numberMember]

/-- Member texts behind one another, each behind its comma. -/
def glue (ts : List Bytes) (r : Bytes) : Bytes := ts.flatMap (44 :: ·) ++ r

/-- Gluing two lists of members is gluing one behind the other. -/
theorem glue_append (a b : List Bytes) (r : Bytes) : glue (a ++ b) r = glue a (glue b r) := by
  simp [glue]

theorem glue_nil (r : Bytes) : glue [] r = r := rfl

theorem glue_cons (t : Bytes) (ts : List Bytes) (r : Bytes) :
    glue (t :: ts) r = 44 :: (t ++ glue ts r) := by
  simp [glue]

/-- The commas between members, read as a comma before each member but the first. -/
theorem intercalate_append (t : Bytes) (ts : List Bytes) (r : Bytes) :
    [44].intercalate (t :: ts) ++ r = t ++ glue ts r := by
  rw [intercalate_comma, append_assoc, glue]

/-- What follows a text member can be moved into it. -/
theorem textMember_append (name text r r' : Bytes) :
    textMember name text r ++ r' = textMember name text (r ++ r') := by
  simp [textMember, member]

theorem numberMember_append (name : Bytes) (n : UInt64) (r : Bytes) :
    numberMember name n [] ++ r = numberMember name n r := by
  simp [numberMember, member]

theorem idsMember_append (name : Bytes) (ids : List UInt64) (r : Bytes) :
    idsMember name ids [] ++ r = idsMember name ids r := by
  simp [idsMember, member]

/-- The members in braces are the text the scanner is run on. -/
theorem payloadTexts_glued (t : Token) :
    123 :: [44].intercalate (payloadTexts t) ++ [125] = payloadJson t := by
  have hscope : ∀ r, glue (if t.scope = [] then [] else [textMember (lit "scope") t.scope []]) r =
      scopePart t r := by
    intro r
    rw [scopePart]
    split
    · rfl
    · rw [glue_cons, glue_nil, textMember_append, nil_append]
  have hnonce : ∀ r,
      glue (if t.oauthNonce = [] then [] else [textMember (lit "nonce") t.oauthNonce []]) r =
        noncePart t r := by
    intro r
    rw [noncePart]
    split
    · rfl
    · rw [glue_cons, glue_nil, textMember_append, nil_append]
  have hgroups : ∀ r,
      glue (if t.groupIds = [] then [] else [idsMember (lit "groups") t.groupIds []]) r =
        groupsPart t r := by
    intro r
    rw [groupsPart]
    split
    · rfl
    · rw [glue_cons, glue_nil, idsMember_append]
  have hcnf : ∀ r,
      glue (if t.jkt = [] then []
        else [member (lit "cnf") (123 :: textMember (lit "jkt") t.jkt [125])]) r = cnfPart t r := by
    intro r
    rw [cnfPart]
    split
    · rfl
    · rw [glue_cons, glue_nil]
      simp [textMember, member]
  simp only [payloadTexts, cons_append, nil_append, intercalate_append]
  simp only [glue_append, glue_cons, glue_nil, textMember_append, numberMember_append,
    idsMember_append, nil_append, hscope, hnonce, hgroups, hcnf]
  rfl

/-- The payload is `payloadJson`, unless one of its texts is not UTF-8. -/
theorem write_payload (t : Token) :
    (Json.obj (payloadMembers t)).write = if payloadValid t then some
    (payloadJson t) else none := by
  have hmembers : writeMembers (payloadMembers t) =
      if payloadValid t then some (payloadTexts t) else none := by
    rw [payloadMembers, writeMembers_append, writeMembers_append, writeMembers_append,
      writeMembers_append, writeMembers_append, writeMembers_head,
      writeMembers_optional (k := (lit "scope")) (by decide),
      writeMembers_optional (k := (lit "nonce")) (by decide),
      writeMembers_ids (k := (lit "roles")) (by decide), writeMembers_cnf]
    have hgroups : writeMembers
        (if t.groupIds = [] then [] else [(lit "groups", .arr (t.groupIds.map uint))]) =
        some (if t.groupIds = [] then [] else [idsMember (lit "groups") t.groupIds []]) := by
      split
      · rfl
      · exact writeMembers_ids (k := (lit "groups")) (by decide) _
    rw [hgroups]
    simp only [payloadValid, payloadTexts]
    by_cases hjti : utf8Valid t.jti = true <;> by_cases hscope : utf8Valid t.scope = true <;>
      by_cases hnonce : utf8Valid t.oauthNonce = true <;> by_cases hjkt : utf8Valid t.jkt = true <;>
      simp only [hjti, hscope, hnonce, hjkt, if_true, if_false, bind_some, bind_none,
        map_some, map_none, Bool.and_true, Bool.and_false, Bool.false_eq_true, append_assoc]
  rw [write, hmembers]
  split
  · rw [map_some, payloadTexts_glued]
  · rfl

/-! ## §2 Kids, jtis and the header -/

variable {b : UInt8} {s text alg : Bytes}

/-- Digits need no escape. -/
theorem isPlainAscii_of_isDigit (h : Decimal.isDigit b = true) : Json.isPlainAscii b = true := by
  have hall : ∀ b : Fin 256, Decimal.isDigit (UInt8.ofFin b) = true →
      isPlainAscii (UInt8.ofFin b) = true := by decide +kernel
  simpa using hall b.toFin (by simpa using h)

/-- A kid is made of letters, a dash and digits. -/
theorem plainAscii_kidOf (k : UInt32) : (kidOf k).all Json.isPlainAscii = true := by
  have hfix : (lit "sso-key-").all isPlainAscii = true := by decide
  have hnum : (decimal k.toNat).all isPlainAscii = true :=
    all_eq_true.mpr fun b hb => isPlainAscii_of_isDigit (isDigit_of_mem_decimal _ b hb)
  rw [kidOf, all_append, hfix, hnum]
  rfl

/-- Eight characters and at most ten digits. -/
theorem length_kidOf_le (k : UInt32) : (kidOf k).length ≤ 18 := by
  have hk : k.toNat < 2 ^ 32 := k.toNat_lt
  have hnum : (decimal k.toNat).length ≤ 10 := length_decimal_le (by decide) (by omega)
  rw [kidOf, length_append]
  have hfix : (lit "sso-key-").length = 8 := by decide
  omega

theorem kidOf_ne_nil (k : UInt32) : kidOf k ≠ [] := by
  simp [kidOf, decimal_ne_nil]

/-- Different numbers give different kids. -/
theorem kidOf_injective : Function.Injective kidOf := by
  intro j k h
  have hnum := append_cancel_left h
  have hval := congrArg value hnum
  rw [value_decimal, value_decimal] at hval
  exact UInt32.toNat_inj.mp hval

/-- Hexadecimal digits need no escape either. -/
theorem plainAscii_toDigits (n : Nat) :
    ((Nat.toDigits 16 n).map fun c => UInt8.ofNat c.toNat).all Json.isPlainAscii = true := by
  have hdigit : ∀ d < 16, isPlainAscii (UInt8.ofNat (Nat.digitChar d).toNat) = true := by
    decide +kernel
  induction n using Nat.strong_induction_on with
  | _ n ih =>
    rw [Nat.toDigits_eq_if (by decide)]
    split
    · next h => simpa using hdigit n h
    · next h =>
      rw [map_append, all_append, ih (n / 16) (by omega)]
      simpa using hdigit (n % 16) (Nat.mod_lt _ (by decide))

/-- The time in a jti, a 64 bit number, takes at most 16 digits. -/
theorem length_hexNumber_le (t : Int64) : (hexNumber t).length ≤ 16 := by
  have ht : t.toUInt64.toNat < 2 ^ 64 := t.toUInt64.toNat_lt
  rw [hexNumber, length_map]
  exact (Nat.length_toDigits_le_iff (by decide) (by decide)).mpr (by omega)

theorem plainAscii_hexByte (b : UInt8) : (hexByte b).all Json.isPlainAscii = true := by
  have hdigit : ∀ d < 16, isPlainAscii (hexChar d) = true := by decide +kernel
  have hb := b.toNat_lt
  simp [hexByte, hdigit (b.toNat / 16) (by omega), hdigit (b.toNat % 16) (by omega)]

variable (m : TokenManager) (a : IssueArgs) (env : IssueEnv)

/-- A jti the server made up is written as it is. -/
theorem plainAscii_jti : (issueClaims m a env).jti.all Json.isPlainAscii = true := by
  have hrand : (env.jtiRand.toList.flatMap hexByte).all isPlainAscii = true := by
    rw [List.all_flatMap, List.all_eq_true]
    exact fun b _ => plainAscii_hexByte b
  change (hexNumber env.now ++ env.jtiRand.toList.flatMap hexByte).all isPlainAscii = true
  rw [List.all_append, hexNumber, plainAscii_toDigits, hrand]
  rfl

/-- Eight random bytes follow the time. -/
theorem length_jti : (issueClaims m a env).jti.length = (hexNumber env.now).length + 16 := by
  change (hexNumber env.now ++ env.jtiRand.toList.flatMap hexByte).length = _
  rw [length_append, length_flatMap_hexByte]
  simp

/-- The header. -/
def headerJson (alg kid : Bytes) : Bytes :=
  123 :: textMember (lit "alg") alg (44 :: textMember (lit "typ") (lit "JWT")
    (44 :: textMember (lit "kid") kid [125]))

/-- The header can always be written, since a kid needs no escape. -/
theorem write_header {m : TokenManager} {k : UInt32} (hk : m.active.kid = kidOf k) :
    (headerDoc m).write = some (headerJson m.mode.alg (kidOf k)) := by
  have hkid := plainAscii_kidOf k
  have halg : m.mode.alg.all isPlainAscii = true := by cases m.mode <;> decide
  have htyp : (lit "JWT").all isPlainAscii = true := by decide
  rw [headerDoc, write, writeMembers_cons (k := (lit "alg")) (by decide),
    writeMembers_cons (k := (lit "typ")) (by decide), writeMembers_text (k := (lit "kid"))
      (by decide),
    write_str, write_str, hk, (plainAscii_spec halg).1, (plainAscii_spec htyp).1,
    (plainAscii_spec hkid).1]
  simp [intercalate, headerJson, textMember, member]

/-- No early end for the loops that look for the closing quote. -/
theorem quote_not_mem_of_plainAscii (h : s.all Json.isPlainAscii = true) : (34 : UInt8) ∉ s := by
  intro hmem
  have h34 := all_eq_true.mp h 34 hmem
  revert h34
  decide

/-- No early end for the C string either. -/
theorem nul_not_mem_of_plainAscii (h : s.all Json.isPlainAscii = true) : (0 : UInt8) ∉ s := by
  intro hmem
  have h0 := all_eq_true.mp h 0 hmem
  revert h0
  decide

/-- A header member other than `kid` is skipped up to the next opening quote. -/
theorem headerLoop_other (hname : (34 : UInt8) ∉ name) (hne : name ≠ lit "kid")
    (htext : (34 : UInt8) ∉ text) :
    headerLoop.run (textMember name text (44 :: 34 :: r)) = headerLoop.run (34 :: r) := by
  have hkey : nextKey (textMember name text (44 :: 34 :: r)) = _ := nextKey_member hname (by decide)
  have hskip : skipValue (34 :: (escape text ++ 34 :: 44 :: 34 :: r)) = 34 :: r := by
    simp [skipValue, readQuoted_closed (quote_not_mem_escape htext), isSep, isWs]
  refine While.run_of_inr ?_
  simp only [headerLoop, hkey, hne, false_and, if_false, hskip]

/-- The value of `kid` is taken up to its closing quote. -/
theorem headerLoop_kid (hkid : (34 : UInt8) ∉ kid) :
    headerLoop.run (textMember (lit "kid") kid r) = some (Json.escape kid) := by
  have hkey : nextKey (textMember (lit "kid") kid r) = _ := nextKey_member (by decide) (by decide)
  refine While.run_of_inl ?_
  simp [headerLoop, hkey, readQuoted_closed (quote_not_mem_escape hkid)]

/-- The kid read from an issued header is the kid written into it. -/
theorem headerKid_headerJson (halg : alg.all Json.isPlainAscii = true)
    (hkid : kid.all Json.isPlainAscii = true) : headerKid (headerJson alg kid) = some kid := by
  obtain ⟨-, hescAlg⟩ := plainAscii_spec halg
  obtain ⟨-, hescKid⟩ := plainAscii_spec hkid
  have hnul : (0 : UInt8) ∉ headerJson alg kid := by
    have hfix : escape (lit "JWT") = lit "JWT" := (plainAscii_spec (by decide)).2
    have halg0 := nul_not_mem_of_plainAscii halg
    have hkid0 := nul_not_mem_of_plainAscii hkid
    simp only [headerJson, textMember, member, hescAlg, hescKid, hfix, mem_cons,
      mem_append, halg0, hkid0, not_mem_nil, or_false, false_or]
    decide
  have hbrace : headerLoop.run (headerJson alg kid) =
      headerLoop.run (textMember (lit "alg") alg (44 :: textMember (lit "typ") (lit "JWT")
        (44 :: textMember (lit "kid") kid [125]))) := by
    have hbody : ∀ p, headerLoop.body (123 :: p) = headerLoop.body p := by
      intro p
      simp only [headerLoop, nextKey_cons p (show (123 : UInt8) ≠ 34 by decide)]
    rw [headerJson, While.run_eq, hbody, ← While.run_eq]
  rw [headerKid, cstr_eq_self hnul, hbrace]
  refine (headerLoop_other (by decide) (by decide) (quote_not_mem_of_plainAscii halg)).trans ?_
  refine (headerLoop_other (by decide) (by decide) (by decide)).trans ?_
  refine (headerLoop_kid (quote_not_mem_of_plainAscii hkid)).trans ?_
  rw [hescKid]

/-- The length of a header, for the bound on the issued text. -/
theorem length_headerJson (halg : alg.all Json.isPlainAscii = true)
    (hkid : kid.all Json.isPlainAscii = true) :
    (headerJson alg kid).length = 31 + alg.length + kid.length := by
  have hfix : escape (lit "JWT") = lit "JWT" := (plainAscii_spec (by decide)).2
  simp only [headerJson, textMember, member, (plainAscii_spec halg).2, (plainAscii_spec hkid).2,
    hfix]
  simp [lit]
  omega

/-! ## §3 Reading the head back -/

/-- The scan state behind the members every payload starts with. -/
def headState (out t : Token) : Scan where
  tok := { out with
    jti := t.jti, userId := t.userId, issuedAt := t.issuedAt, expiresAt := t.expiresAt,
    nonce := t.nonce }
  foundSub := true
  foundExp := true

/-- The issuer and the audience are written as they are. -/
theorem escape_fixed :
    escape (lit "sso-server") = lit "sso-server" ∧ escape (lit "sso-api") = lit "sso-api" :=
  ⟨(plainAscii_spec (by decide)).2, (plainAscii_spec (by decide)).2⟩

/-- The scanner reads the seven claims of the head into the token; `iss` and `aud` leave no trace.
-/
theorem scanFrom_headPart (out : Token) (hjti : t.jti.all Json.isPlainAscii = true)
    (hlen : t.jti.length < 64) (hr : Delim r) :
    scanFrom (headPart t r) ⟨out, false, false⟩ = scanFrom r (headState out t) := by
  have hesc := (plainAscii_spec hjti).2
  have hcomma : ∀ p, NoDigitHead (44 :: p) := fun p => noDigitHead_cons (by decide)
  simp only [headPart, textMember, numberMember, hesc, escape_fixed]
  rw [show lit "jti" = Claim.name .jti from rfl, show lit "sub" = Claim.name .sub from rfl,
    show lit "iat" = Claim.name .iat from rfl, show lit "exp" = Claim.name .exp from rfl,
    show lit "tnc" = Claim.name .tnc from rfl]
  rw [scanFrom_text .jti _ _ (by decide) (fun _ => by rw [scanValue])
      (quote_not_mem_of_plainAscii hjti),
    scanFrom_number .sub _ _ _ (by decide) (fun _ => by rw [scanValue]) (hcomma _),
    scanFrom_number .iat _ _ _ (by decide) (fun _ => by rw [scanValue]) (hcomma _),
    scanFrom_number .exp _ _ _ (by decide) (fun _ => by rw [scanValue]) (hcomma _),
    scanFrom_number .tnc _ _ _ (by decide) (fun _ => by rw [scanValue]) (hcomma _),
    scanFrom_unknown _ (by decide) (by decide) (by decide) (by decide)
      (fun b hb => by simp at hb; exact .inl hb.symm),
    scanFrom_unknown _ (by decide) (by decide) (by decide) (by decide) hr]
  simp only [storeText, hlen, if_true]
  rfl

/-! ## §4 No terminator inside -/

/-- An escaped text has no terminator in it. -/
@[simp] theorem nul_mem_textMember :
    (0 : UInt8) ∈ textMember name text r ↔ (0 : UInt8) ∈ name ∨ (0 : UInt8) ∈ r := by
  simp [textMember, member, nul_not_mem_escape]

@[simp] theorem nul_mem_numberMember {n : UInt64} :
    (0 : UInt8) ∈ numberMember name n r ↔ (0 : UInt8) ∈ name ∨ (0 : UInt8) ∈ r := by
  have hdec : (0 : UInt8) ∉ decimal n.toNat := fun h =>
    absurd (isDigit_of_mem_decimal _ 0 h) (by decide)
  simp [numberMember, member, hdec]

@[simp] theorem nul_mem_idsMember {ids : List UInt64} :
    (0 : UInt8) ∈ idsMember name ids r ↔ (0 : UInt8) ∈ name ∨ (0 : UInt8) ∈ r := by
  have hids : (0 : UInt8) ∉ idsText ids := not_mem_idsText ids (by decide) (by decide)
  simp [idsMember, member, hids]

/-- The payload is one C string: `strlen` sees all of it. -/
theorem nul_not_mem_payloadJson (t : Token) : (0 : UInt8) ∉ payloadJson t := by
  unfold payloadJson headPart tailPart scopePart noncePart rolesPart groupsPart cnfPart
  split_ifs <;> simp +decide [member]

end SsoSystem
