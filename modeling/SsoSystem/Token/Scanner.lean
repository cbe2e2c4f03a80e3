/-
SsoSystem.Token.Scanner — the decoded token and the two hand-written scanners
of src/token.c, `scan_jwt_payload` and `scan_header_kid`.

A pointer into a C string is the text from there to the terminator; the empty
text is the terminator. Both scanners hop from quote to quote: the text
between two neighbouring quotes is a key when a colon follows, no escape is
looked at, and the value of an unknown key is not skipped by the payload
scanner.

Inside the `cnf` object one loop steps over the character it stopped at
without asking whether it is the terminator. From there the source reads
whatever the heap block held before, so the payload scanner has no result
(`none`) once that happens.
-/
import SsoSystem.Types
import SsoSystem.Lib.Decimal
import SsoSystem.Lib.Loop

namespace SsoSystem

open CMem Decimal Loop List

/-- `token_t`. Counts are the lengths of the lists; `claims` is never written. -/
structure Token where
  tokenStr : Bytes
  jti : Bytes
  userId : UInt64
  issuedAt : Int64
  expiresAt : Int64
  roleIds : List UInt64
  groupIds : List UInt64
  nonce : UInt64
  oauthNonce : Bytes
  scope : Bytes
  jkt : Bytes
  rawRefreshToken : Bytes
  deriving DecidableEq, Repr

/-- `memset(out, 0, sizeof(*out))`. -/
def Token.zero : Token where
  tokenStr := []
  jti := []
  userId := 0
  issuedAt := 0
  expiresAt := 0
  roleIds := []
  groupIds := []
  nonce := 0
  oauthNonce := []
  scope := []
  jkt := []
  rawRefreshToken := []

/-! ## §1 Keys -/

/-- Space, tab, newline or carriage return. -/
def isWs (c : UInt8) : Bool := c == 32 || c == 9 || c == 10 || c == 13

/-- One round of the key search both scanners start with. -/
inductive KeyScan where
  /-- the text is used up -/
  | stop
  /-- a quoted text that no colon follows, and the text behind it -/
  | skip (rest : Bytes)
  /-- a key and the text from its value on -/
  | key (name rest : Bytes)
  deriving DecidableEq, Repr

def nextKey (p : Bytes) : KeyScan :=
  match p.dropWhile (· != 34) with
  | [] => .stop
  | _ :: p =>
    match p.dropWhile (· != 34) with
    | [] => .stop
    | _ :: r =>
      if r = [] then .stop
      else
        match r.dropWhile isWs with
        | [] => .skip []
        | c :: r =>
          if c = 58 then
            match r.dropWhile isWs with
            | [] => .stop
            | v => .key (p.takeWhile (· != 34)) v
          else .skip (c :: r)

/-- A quoted value from behind its opening quote: the value, and the text behind
the closing quote (or the end of the text, when there is none). -/
def readQuoted (p : Bytes) : Bytes × Bytes :=
  (p.takeWhile (· != 34), (p.dropWhile (· != 34)).drop 1)

/-- A value is copied when it fits the field with its terminator. -/
def storeText (size : Nat) (value old : Bytes) : Bytes :=
  if value.length < size then value else old

/-- The text `q` starts with the quoted key `k`, a colon and the value `v`. -/
def KeyAt (k q v : Bytes) : Prop :=
  ∃ w w', q = 34 :: (k ++ 34 :: (w ++ 58 :: (w' ++ v))) ∧ (34 : UInt8) ∉ k ∧
    (∀ b ∈ w, isWs b = true) ∧ ∀ b ∈ w', isWs b = true

/-- All the key search can do: skip a quoted text, or find a key with its value. -/
theorem nextKey_cases (p : Bytes) :
    nextKey p = .stop ∨ (∃ q r, nextKey p = .skip r ∧ 34 :: q <:+ p ∧ r <:+ q) ∨
      ∃ k q v, nextKey p = .key k v ∧ q <:+ p ∧ KeyAt k q v ∧ v ≠ [] := by
  have hopen := dropWhile_suffix (l := p) (· != 34)
  unfold nextKey
  split
  · exact .inl rfl
  · next b q hq =>
    obtain rfl : b = 34 := by
      have hb := List.head?_dropWhile_not (· != 34) p
      simpa [hq] using hb
    rw [hq] at hopen
    have hclose := takeWhile_append_dropWhile (p := (· != 34)) (l := q)
    split
    · exact .inl rfl
    · next b r hr =>
      obtain rfl : b = 34 := by
        have hb := List.head?_dropWhile_not (· != 34) q
        simpa [hr] using hb
      rw [hr] at hclose
      have hrq : r <:+ q := ⟨q.takeWhile (· != 34) ++ [34], by simpa using hclose⟩
      have hcolon := takeWhile_append_dropWhile (p := isWs) (l := r)
      split
      · exact .inl rfl
      · split
        · exact .inr (.inl ⟨q, [], rfl, hopen, nil_suffix⟩)
        · next c v hv =>
          rw [hv] at hcolon
          split
          · next hc =>
            subst hc
            split
            · exact .inl rfl
            · next hne =>
              refine .inr (.inr ⟨_, 34 :: q, _, rfl, hopen, ?_, hne⟩)
              have hvalue := takeWhile_append_dropWhile (p := isWs) (l := v)
              refine ⟨r.takeWhile isWs, v.takeWhile isWs, ?_, ?_, fun b hb => ?_, fun b hb => ?_⟩
              · rw [hvalue, hcolon, hclose]
              · exact not_mem_takeWhile_ne 34 q
              · exact mem_takeWhile_imp hb
              · exact mem_takeWhile_imp hb
          · exact .inr (.inl ⟨q, c :: v, rfl, hopen,
              List.IsSuffix.trans ⟨r.takeWhile isWs, hcolon⟩ hrq⟩)

theorem KeyAt.suffix {k q v : Bytes} (h : KeyAt k q v) : v <:+ q.tail := by
  obtain ⟨w, w', rfl, -⟩ := h
  exact ⟨k ++ 34 :: (w ++ 58 :: w'), by simp⟩

theorem KeyAt.length_lt {k q v : Bytes} (h : KeyAt k q v) : v.length < q.length := by
  have hle := h.suffix.length_le
  obtain ⟨w, w', rfl, -⟩ := h
  exact Nat.lt_succ_of_le hle

variable {p : Bytes} {r : Bytes × Scan} {s : Scan}

theorem length_nextKey_lt :
    (∀ r, nextKey p = .skip r → r.length < p.length) ∧
      ∀ k v, nextKey p = .key k v → v.length < p.length := by
  rcases nextKey_cases p with h | ⟨q, r, h, hq, hr⟩ | ⟨k, q, v, h, hq, hk, -⟩
  · simp [h]
  · have h1 := hq.length_le
    have h2 := hr.length_le
    simp only [h, KeyScan.skip.injEq, forall_eq', reduceCtorEq, false_implies, implies_true,
      and_true, length_cons] at h1 ⊢
    omega
  · have h1 := hq.length_le
    have h2 := hk.length_lt
    simp only [h, KeyScan.key.injEq, reduceCtorEq, false_implies, implies_true, true_and]
    rintro _ _ ⟨-, rfl⟩
    omega

theorem readQuoted_suffix (p : Bytes) : (readQuoted p).2 <:+ p :=
  (drop_suffix _ _).trans (dropWhile_suffix _)

/-! ## §2 The `cnf` object -/

/-- One member of the `cnf` object from behind its key: the text behind it, and `jkt`. -/
def cnfValue (ikey q jkt : Bytes) : Bytes × Bytes :=
  if q.head? = some 34 then
    let value := readQuoted q.tail
    (value.2, if ikey = lit "jkt" then storeText 64 value.1 jkt else jkt)
  else (q.dropWhile fun c => c != 44 && c != 125, jkt)

theorem cnfValue_suffix (ikey q jkt : Bytes) : (cnfValue ikey q jkt).1 <:+ q := by
  unfold cnfValue
  split
  · exact (readQuoted_suffix _).trans (tail_suffix q)
  · exact dropWhile_suffix _

/-- One round of the member loop, on the text and the `jkt` field so far. The
search for the next quote also ends at a closing brace; at the terminator it
steps over it and leaves the text. -/
def cnfBody (s : Bytes × Bytes) : Option (Bytes × Bytes) ⊕ Bytes × Bytes :=
  if s.1 = [] then .inl (some s)
  else
    match s.1.dropWhile fun c => c != 34 && c != 125 with
    | [] => .inl none
    | c :: q =>
      if c = 125 then .inl (some (q, s.2))
      else
        let member := readQuoted q
        let next := cnfValue member.1 (member.2.dropWhile fun c => c == 32 || c == 58) s.2
        .inr (next.1.dropWhile fun c => c == 32 || c == 44, next.2)

/-- All a round can do: end at the end or at a brace, leave the text, or read a member. -/
theorem cnfBody_cases (p jkt : Bytes) :
    (p = [] ∧ cnfBody (p, jkt) = .inl (some ([], jkt))) ∨
      (p ≠ [] ∧ (34 : UInt8) ∉ p ∧ (125 : UInt8) ∉ p ∧ cnfBody (p, jkt) = .inl none) ∨
      (∃ q, 125 :: q <:+ p ∧ cnfBody (p, jkt) = .inl (some (q, jkt))) ∨
      ∃ q r ikey v, 34 :: q <:+ p ∧ r <:+ q ∧
        cnfBody (p, jkt) = .inr (r, (cnfValue ikey v jkt).2) := by
  have hstop := dropWhile_suffix (l := p) fun c => c != 34 && c != 125
  have hhead := List.head?_dropWhile_not (fun c => c != 34 && c != 125) p
  unfold cnfBody
  dsimp only
  split
  · next hp => exact .inl ⟨hp, by rw [hp]⟩
  · next hp =>
    split
    · next hd =>
      rw [dropWhile_eq_nil_iff] at hd
      refine .inr (.inl ⟨hp, fun h => ?_, fun h => ?_, rfl⟩)
      · simpa using hd 34 h
      · simpa using hd 125 h
    · next c q hq =>
      rw [hq] at hstop hhead
      split
      · next hc => exact .inr (.inr (.inl ⟨q, hc ▸ hstop, rfl⟩))
      · next hc =>
        obtain rfl : c = 34 := by simpa [hc] using hhead
        refine .inr (.inr (.inr ⟨q, _, _, _, hstop, ?_, rfl⟩))
        exact (((dropWhile_suffix _).trans (cnfValue_suffix _ _ _)).trans
          (dropWhile_suffix _)).trans (readQuoted_suffix q)

/-- The member loop of the `cnf` object. -/
def cnfLoop : While (Bytes × Bytes) (Option (Bytes × Bytes)) where
  body := cnfBody
  size := fun s => s.1.length
  decreases := by
    rintro ⟨p, jkt⟩ ⟨p', jkt'⟩ h
    rcases cnfBody_cases p jkt with ⟨-, hb⟩ | ⟨-, -, -, hb⟩ | ⟨q, -, hb⟩ | ⟨q, r, i, v, hq, hr,
      hb⟩ <;>
      rw [hb] at h <;> cases h
    exact lt_of_le_of_lt hr.length_le hq.length_le

theorem cnfLoop_suffix (p jkt : Bytes) : ∀ r ∈ cnfLoop.run (p, jkt), r.1 <:+ p := by
  refine cnfLoop.run_induct (P := fun s o => ∀ r ∈ o, r.1 <:+ s.1) ?_ ?_ (p, jkt)
  · rintro ⟨p, jkt⟩ o h r hr
    rcases cnfBody_cases p jkt with ⟨hp, hb⟩ | ⟨-, -, -, hb⟩ | ⟨q, hq, hb⟩ | ⟨q, r, i, v, -, -,
      hb⟩ <;>
      rw [show cnfLoop.body (p, jkt) = cnfBody (p, jkt) from rfl, hb] at h <;> cases h <;> cases hr
    · exact nil_suffix
    · exact (suffix_cons _ _).trans hq
  · rintro ⟨p, jkt⟩ ⟨p', jkt'⟩ o h ih r hr
    rcases cnfBody_cases p jkt with ⟨-, hb⟩ | ⟨-, -, -, hb⟩ | ⟨q, -, hb⟩ | ⟨q, t, i, v, hq, ht,
      hb⟩ <;>
      rw [show cnfLoop.body (p, jkt) = cnfBody (p, jkt) from rfl, hb] at h <;> cases h
    exact ((ih r hr).trans ht).trans ((suffix_cons _ _).trans hq)

/-! ## §3 Numbers and id lists -/

/-- The separators inside an id list. -/
def isSep (c : UInt8) : Bool := isWs c || c == 44

/-- The id loop, with room for `room` more ids: the ids, and the text it stopped at. -/
def scanIds : Nat → Bytes → List UInt64 × Bytes
  | 0, p => ([], p)
  | room + 1, p =>
    if p = [] ∨ p.head? = some 93 then ([], p)
    else
      let p := p.dropWhile isSep
      if (p.head?.any Decimal.isDigit) then
        let number := strtoull p
        let more := scanIds room number.2
        (number.1 :: more.1, more.2)
      else ([], p)

/-- The ids of an array from behind its bracket, at most 64 of them, and the text
behind the closing bracket. An empty list leaves the field as it was. -/
def readIds (p : Bytes) (old : List UInt64) : List UInt64 × Bytes :=
  let ids := scanIds 64 p
  (if ids.1 = [] then old else ids.1, (ids.2.dropWhile (· != 93)).drop 1)

theorem scanIds_suffix (room : Nat) (p : Bytes) : (scanIds room p).2 <:+ p := by
  induction room generalizing p with
  | zero => exact suffix_rfl
  | succ room ih =>
    rw [scanIds]
    split
    · exact suffix_rfl
    · dsimp only
      split
      · exact ((ih _).trans (dropWhile_suffix _)).trans (dropWhile_suffix _)
      · exact dropWhile_suffix _

theorem readIds_suffix (p : Bytes) (old : List UInt64) : (readIds p old).2 <:+ p :=
  ((drop_suffix _ _).trans (dropWhile_suffix _)).trans (scanIds_suffix 64 p)

/-! ## §4 The payload -/

/-- The token under construction, and the two fields a payload must have. -/
structure Scan where
  tok : Token
  foundSub : Bool
  foundExp : Bool
  deriving DecidableEq, Repr

/-- The keys the scanner knows. -/
inductive Claim where
  | jti | sub | iat | exp | tnc | cnf | scope | nonce | roles | groups
  deriving DecidableEq, Repr

def Claim.name : Claim → Bytes
  | .jti => lit "jti"
  | .sub => lit "sub"
  | .iat => lit "iat"
  | .exp => lit "exp"
  | .tnc => lit "tnc"
  | .cnf => lit "cnf"
  | .scope => lit "scope"
  | .nonce => lit "nonce"
  | .roles => lit "roles"
  | .groups => lit "groups"

/-- The `switch` on the key. -/
def Claim.ofKey (key : Bytes) : Option Claim :=
  [jti, sub, iat, exp, tnc, cnf, scope, nonce, roles, groups].find? fun c => c.name == key

/-- A quoted value; a value of another kind is not read. -/
def onQuoted (p : Bytes) (s : Scan) (f : Bytes → Scan) : Option (Bytes × Scan) :=
  if p.head? = some 34 then some ((readQuoted p.tail).2, f (readQuoted p.tail).1) else some (p, s)

/-- A number. -/
def onNumber (p : Bytes) (s : Scan) (f : UInt64 → Scan) : Option (Bytes × Scan) :=
  if p.head?.any Decimal.isDigit then some ((strtoull p).2, f (strtoull p).1) else some (p, s)

/-- An id list. -/
def onIds (p : Bytes) (s : Scan) (old : List UInt64) (f : List UInt64 → Scan) :
    Option (Bytes × Scan) :=
  if p.head? = some 91 then some ((readIds p.tail old).2, f (readIds p.tail old).1)
  else some (p, s)

/-- What the value of a known key does to the token, and the text the search goes on with. -/
def scanValue (p : Bytes) (s : Scan) : Claim → Option (Bytes × Scan)
  | .jti => onQuoted p s fun v => { s with tok.jti := storeText 64 v s.tok.jti }
  | .sub => onNumber p s fun n => { s with tok.userId := n, foundSub := true }
  | .iat => onNumber p s fun n => { s with tok.issuedAt := n.toInt64 }
  | .exp => onNumber p s fun n => { s with tok.expiresAt := n.toInt64, foundExp := true }
  | .tnc => onNumber p s fun n => { s with tok.nonce := n }
  | .cnf =>
    if p.head? = some 123 then
      (cnfLoop.run (p.tail, s.tok.jkt)).map fun r => (r.1, { s with tok.jkt := r.2 })
    else some (p, s)
  | .scope => onQuoted p s fun v => { s with tok.scope := storeText 256 v s.tok.scope }
  | .nonce => onQuoted p s fun v => { s with tok.oauthNonce := storeText 128 v s.tok.oauthNonce }
  | .roles => onIds p s s.tok.roleIds fun ids => { s with tok.roleIds := ids }
  | .groups => onIds p s s.tok.groupIds fun ids => { s with tok.groupIds := ids }

/-- The value behind a key; that of an unknown key is not skipped. -/
def scanClaim (key p : Bytes) (s : Scan) : Option (Bytes × Scan) :=
  match Claim.ofKey key with
  | some c => scanValue p s c
  | none => some (p, s)

theorem scanValue_suffix {c : Claim} (h : scanValue p s c = some r) : r.1 <:+ p := by
  have hquoted : ∀ f, onQuoted p s f = some r → r.1 <:+ p := by
    intro f h
    unfold onQuoted at h
    split at h <;> cases h
    · exact (readQuoted_suffix _).trans (tail_suffix p)
    · exact suffix_rfl
  have hnumber : ∀ f, onNumber p s f = some r → r.1 <:+ p := by
    intro f h
    unfold onNumber at h
    split at h <;> cases h
    · exact dropWhile_suffix _
    · exact suffix_rfl
  have hids : ∀ old f, onIds p s old f = some r → r.1 <:+ p := by
    intro old f h
    unfold onIds at h
    split at h <;> cases h
    · exact (readIds_suffix _ old).trans (tail_suffix p)
    · exact suffix_rfl
  cases c <;> rw [scanValue] at h
  case jti | scope | nonce => exact hquoted _ h
  case sub | iat | exp | tnc => exact hnumber _ h
  case roles | groups => exact hids _ _ h
  case cnf =>
    split at h
    · obtain ⟨r', hr', rfl⟩ := Option.map_eq_some_iff.mp h
      exact (cnfLoop_suffix _ _ r' hr').trans (tail_suffix p)
    · cases h
      exact suffix_rfl

theorem scanClaim_suffix {key p : Bytes} (h : scanClaim key p s = some r) : r.1 <:+ p := by
  unfold scanClaim at h
  split at h
  · exact scanValue_suffix h
  · cases h
    exact suffix_rfl

/-- The search for keys from `p` on. -/
def payloadLoop : While (Bytes × Scan) (Option Scan) where
  body := fun s =>
    match nextKey s.1 with
    | .stop => .inl (some s.2)
    | .skip r => .inr (r, s.2)
    | .key k v =>
      match scanClaim k v s.2 with
      | none => .inl none
      | some next => .inr next
  size := fun s => s.1.length
  decreases := by
    intro s s' h
    split at h
    · cases h
    · next r hr =>
      cases h
      exact length_nextKey_lt.1 r hr
    · next k v hk =>
      split at h
      · cases h
      · next next hn =>
        cases h
        exact lt_of_le_of_lt (scanClaim_suffix hn).length_le (length_nextKey_lt.2 k v hk)

/-- `scan_jwt_payload`. -/
def scanJwtPayload (json : Bytes) (out : Token) : Option (SsoError × Token) :=
  (payloadLoop.run (cstr json, ⟨out, false, false⟩)).map fun s =>
    (if s.foundSub && s.foundExp then .ok else .tokenInvalid, s.tok)

/-! ## §5 The header -/

/-- The bracketed value from behind its opening bracket; stops behind the bracket
that closes it. -/
def skipNested : Nat → Bytes → Bytes
  | _, [] => []
  | depth, c :: p =>
    if c = 123 ∨ c = 91 then skipNested (depth + 1) p
    else if c = 125 ∨ c = 93 then
      if depth = 1 then p else skipNested (depth - 1) p
    else skipNested depth p

/-- The value of a key that is not asked for, and the separators behind it. -/
def skipValue (p : Bytes) : Bytes :=
  let rest :=
    if p.head? = some 34 then (readQuoted p.tail).2
    else if p.head? = some 123 ∨ p.head? = some 91 then skipNested 1 p.tail
    else p.dropWhile fun c => c != 44 && c != 125
  rest.dropWhile isSep

theorem skipNested_suffix (depth : Nat) (p : Bytes) : skipNested depth p <:+ p := by
  induction p generalizing depth with
  | nil => exact suffix_rfl
  | cons c p ih =>
    rw [skipNested]
    split_ifs
    · exact (ih _).trans (suffix_cons _ _)
    · exact suffix_cons _ _
    · exact (ih _).trans (suffix_cons _ _)
    · exact (ih _).trans (suffix_cons _ _)

theorem skipValue_suffix (p : Bytes) : skipValue p <:+ p := by
  refine (dropWhile_suffix _).trans ?_
  split_ifs
  · exact (readQuoted_suffix _).trans (tail_suffix p)
  · exact (skipNested_suffix _ _).trans (tail_suffix p)
  · exact dropWhile_suffix _

/-- The kid search: the text of the first `kid` with a quoted value. -/
def headerLoop : While Bytes (Option Bytes) where
  body := fun p =>
    match nextKey p with
    | .stop => .inl none
    | .skip r => .inr r
    | .key k v =>
      if k = lit "kid" ∧ v.head? = some 34 then .inl (some (readQuoted v.tail).1)
      else .inr (skipValue v)
  size := List.length
  decreases := by
    intro s s' h
    split at h
    · cases h
    · next hr =>
      cases h
      exact length_nextKey_lt.1 _ hr
    · next k v hk =>
      split at h
      · cases h
      · cases h
        exact lt_of_le_of_lt (skipValue_suffix v).length_le (length_nextKey_lt.2 k v hk)

/-- The kid a decoded header carries. -/
def headerKid (json : Bytes) : Option Bytes := headerLoop.run (cstr json)

/-- `scan_header_kid`: empty when there is none or it does not fit. -/
def scanHeaderKid (json : Bytes) (kidMax : Nat) : Bytes :=
  match headerKid json with
  | some kid => if kid.length < kidMax then kid else []
  | none => []

end SsoSystem
