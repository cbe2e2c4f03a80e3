/-
SsoSystem.Token.ScannerTheorems — what the payload scanner does with any
text, and how it reads the pieces a payload is made of.

A payload is cut into members, each read on its own and leaving the
rest of the text untouched. Every member comes with its cut form, since a
payload may end anywhere.
-/
import SsoSystem.Token.Scanner
import SsoSystem.JsonWriter

namespace SsoSystem

open CMem Decimal Loop List Option

/-! ## §1 Rules for the payload loop -/

/-- The payload scan from `p` on. -/
abbrev scanFrom (p : Bytes) (s : Scan) : Option Scan := payloadLoop.run (p, s)

variable {p r v e : Bytes} {s : Scan} {b : UInt8} {ids : List UInt64} {room : Nat}

theorem scanFrom_stop (h : nextKey p = .stop) : scanFrom p s = some s :=
  While.run_of_inl (by simp [payloadLoop, h])

@[simp] theorem scanFrom_nil (s : Scan) : scanFrom [] s = some s := scanFrom_stop rfl

theorem scanFrom_skip (h : nextKey p = .skip r) : scanFrom p s = scanFrom r s :=
  While.run_of_inr (by simp [payloadLoop, h])

theorem scanFrom_key {k : Bytes} (h : nextKey p = .key k v) :
    scanFrom p s = (scanClaim k v s).bind fun x => scanFrom x.1 x.2 := by
  cases hx : scanClaim k v s with
  | none => exact While.run_of_inl (by simp [payloadLoop, h, hx])
  | some x => exact While.run_of_inr (by simp [payloadLoop, h, hx])

/-- A round of the loop ends it, skips a quoted text, or reads the value of a key. -/
theorem payloadLoop_body_cases (p : Bytes) (s : Scan) :
    payloadLoop.body (p, s) = .inl (some s) ∨
      (∃ r, r <:+ p ∧ payloadLoop.body (p, s) = .inr (r, s)) ∨
      (∃ k q v, q <:+ p ∧ KeyAt k q v ∧ scanClaim k v s = none ∧
        payloadLoop.body (p, s) = .inl none) ∨
      ∃ k q v x, q <:+ p ∧ KeyAt k q v ∧ scanClaim k v s = some x ∧ x.1 <:+ p ∧
        payloadLoop.body (p, s) = .inr x := by
  rcases nextKey_cases p with h | ⟨q, r, h, hq, hr⟩ | ⟨k, q, v, h, hq, hk, -⟩
  · exact .inl (by simp [payloadLoop, h])
  · exact .inr (.inl ⟨r, (hr.trans (suffix_cons _ _)).trans hq, by simp [payloadLoop, h]⟩)
  · cases hx : scanClaim k v s with
    | none => exact .inr (.inr (.inl ⟨k, q, v, hq, hk, hx, by simp [payloadLoop, h, hx]⟩))
    | some x =>
      have hsuf : x.1 <:+ p :=
        ((scanClaim_suffix hx).trans hk.suffix).trans ((tail_suffix q).trans hq)
      exact .inr (.inr (.inr ⟨k, q, v, x, hq, hk, hx, hsuf, by simp [payloadLoop, h, hx]⟩))

variable {s' : Scan} {c : Claim} {name : Bytes}

/-- What the value of every key that stands in the text keeps, the scan keeps. -/
theorem scanFrom_keeps {I : Scan → Prop}
    (hkeys : ∀ k q v s x, q <:+ p → KeyAt k q v → I s → scanClaim k v s = some x → I x.2) (hs : I s)
    (h : scanFrom p s = some s') : I s' := by
  refine payloadLoop.run_induct
    (P := fun st o =>
      (∀ k q v s x, q <:+ st.1 → KeyAt k q v → I s → scanClaim k v s = some x → I x.2) →
        I st.2 → ∀ s' ∈ o, I s') ?_ ?_ (p, s) hkeys hs s' h
  · rintro ⟨p, s⟩ o hb - hI s' hs'
    rcases payloadLoop_body_cases p s with h | ⟨r, -, h⟩ | ⟨k, q, v, -, -, -, h⟩ | ⟨k, q, v, x, -,
      -, -, -, h⟩ <;>
      rw [h] at hb <;> cases hb <;> cases hs'
    exact hI
  · rintro ⟨p, s⟩ ⟨p', t⟩ o hb ih hkeys hI
    rcases payloadLoop_body_cases p s with h | ⟨r, hr, h⟩ | ⟨k, q, v, -, -, -, h⟩ | ⟨k, q, v, x, hq,
      hk, hx, hsuf, h⟩ <;>
      rw [h] at hb <;> cases hb
    · exact ih (fun k q v s x hq => hkeys k q v s x (hq.trans hr)) hI
    · exact ih (fun k q v s x hq => hkeys k q v s x (hq.trans hsuf)) (hkeys k q v s _ hq hk hI hx)

theorem Claim.name_of_ofKey {key : Bytes} (h : Claim.ofKey key = some c) : key = c.name := by
  have hfound := find?_some h
  exact (beq_iff_eq.mp hfound).symm

theorem Claim.ofKey_name (c : Claim) : Claim.ofKey c.name = some c := by
  cases c <;> decide

/-! ## §2 Bounds -/

theorem quote_not_mem_readQuoted (p : Bytes) : (34 : UInt8) ∉ (readQuoted p).1 :=
  not_mem_takeWhile_ne 34 p

/-- A text field of `size` bytes that holds no quote. -/
def StoredText (size : Nat) (text : Bytes) : Prop := (34 : UInt8) ∉ text ∧ text.length < size

theorem StoredText.storeText {size : Nat} {value old : Bytes} (hv : (34 : UInt8) ∉ value)
    (hold : StoredText size old) : StoredText size (storeText size value old) := by
  unfold SsoSystem.storeText
  split
  · next h => exact ⟨hv, h⟩
  · exact hold

theorem storedText_cnfLoop {jkt : Bytes} (h : StoredText 64 jkt) :
    ∀ r ∈ cnfLoop.run (p, jkt), StoredText 64 r.2 := by
  refine cnfLoop.run_induct (P := fun s o => StoredText 64 s.2 → ∀ r ∈ o, StoredText 64 r.2)
    ?_ ?_ (p, jkt) h
  · rintro ⟨p, jkt⟩ o hb hjkt r hr
    change cnfBody (p, jkt) = _ at hb
    rcases cnfBody_cases p jkt with ⟨-, h⟩ | ⟨-, -, -, h⟩ | ⟨q, -, h⟩ | ⟨q, r, i, v, -, -, h⟩ <;>
      rw [h] at hb <;> cases hb <;> cases hr
    · exact hjkt
    · exact hjkt
  · rintro ⟨p, jkt⟩ ⟨p', jkt'⟩ o hb ih hjkt
    change cnfBody (p, jkt) = _ at hb
    rcases cnfBody_cases p jkt with ⟨-, h⟩ | ⟨-, -, -, h⟩ | ⟨q, -, h⟩ | ⟨q, r, i, v, -, -, h⟩ <;>
      rw [h] at hb <;> cases hb
    refine ih ?_
    unfold cnfValue
    split
    · split
      · exact StoredText.storeText (quote_not_mem_readQuoted _) hjkt
      · exact hjkt
    · exact hjkt

theorem length_scanIds_le (room : Nat) (p : Bytes) : (scanIds room p).1.length ≤ room := by
  induction room generalizing p with
  | zero => exact le_refl _
  | succ room ih =>
    rw [scanIds]
    split
    · exact Nat.zero_le _
    · dsimp only
      split
      · exact Nat.succ_le_succ (ih _)
      · exact Nat.zero_le _

theorem length_readIds_le {old : List UInt64} (h : old.length ≤ 64) :
    (readIds p old).1.length ≤ 64 := by
  unfold readIds
  dsimp only
  split
  · exact h
  · exact length_scanIds_le 64 p

/-- The limits of the fields a scan fills. -/
structure Scan.Bounds (s : Scan) : Prop where
  scope : StoredText 256 s.tok.scope
  jkt : StoredText 64 s.tok.jkt
  roles : s.tok.roleIds.length ≤ 64
  groups : s.tok.groupIds.length ≤ 64

theorem Scan.Bounds.scanValue {x : Bytes × Scan} (hs : s.Bounds)
    (h : scanValue p s c = some x) : x.2.Bounds := by
  cases c <;> rw [SsoSystem.scanValue] at h
  case jti | nonce =>
    unfold onQuoted at h
    split at h <;> cases h <;> exact ⟨hs.scope, hs.jkt, hs.roles, hs.groups⟩
  case scope =>
    unfold onQuoted at h
    split at h <;> cases h
    · exact ⟨hs.scope.storeText (quote_not_mem_readQuoted _), hs.jkt, hs.roles, hs.groups⟩
    · exact hs
  case sub | iat | exp | tnc =>
    unfold onNumber at h
    split at h <;> cases h <;> exact ⟨hs.scope, hs.jkt, hs.roles, hs.groups⟩
  case cnf =>
    split at h
    · obtain ⟨r, hr, rfl⟩ := map_eq_some_iff.mp h
      exact ⟨hs.scope, storedText_cnfLoop hs.jkt r hr, hs.roles, hs.groups⟩
    · cases h
      exact hs
  case roles =>
    unfold onIds at h
    split at h <;> cases h
    · exact ⟨hs.scope, hs.jkt, length_readIds_le hs.roles, hs.groups⟩
    · exact hs
  case groups =>
    unfold onIds at h
    split at h <;> cases h
    · exact ⟨hs.scope, hs.jkt, hs.roles, length_readIds_le hs.groups⟩
    · exact hs

/-- Whatever the text, what a scan stores has no quotes and is within the limits. -/
theorem scanFrom_bounds (hs : s.Bounds) (h : scanFrom p s = some s') : s'.Bounds := by
  refine scanFrom_keeps (fun k q v s x _ _ hs hx => ?_) hs h
  unfold scanClaim at hx
  split at hx
  · exact hs.scanValue hx
  · cases hx
    exact hs

/-! ## §3 Members -/

/-- `"name":value`. -/
def member (name value : Bytes) : Bytes := 34 :: (name ++ 34 :: 58 :: value)

/-- What follows a value: nothing, a comma or a closing brace. -/
def Delim (r : Bytes) : Prop := ∀ b ∈ r.head?, b = 44 ∨ b = 125

theorem Delim.take (h : Delim r) (n : Nat) : Delim (r.take n) := by
  intro b hb
  rw [List.head?_take] at hb
  split at hb
  · cases hb
  · exact h b hb

theorem dropWhile_isWs {c : UInt8} (h : isWs c = false) : (c :: r).dropWhile isWs = c :: r := by
  simp [h]

theorem nextKey_cons (p : Bytes) (hb : b ≠ 34) : nextKey (b :: p) = nextKey p := by
  simp [nextKey, hb]

theorem nextKey_member {c : UInt8} (hname : (34 : UInt8) ∉ name)
    (hc : isWs c = false) : nextKey (member name (c :: v)) = .key name (c :: v) := by
  obtain ⟨htake, hdrop⟩ := takeWhile_ne (r := 58 :: c :: v) hname
  have hopen : (member name (c :: v)).dropWhile (· != 34) = member name (c :: v) := by
    simp [member]
  rw [nextKey, hopen, member]
  simp only [hdrop, htake, dropWhile_isWs (show isWs 58 = false by decide), dropWhile_isWs hc,
    cons_ne_nil, if_false, if_true]

theorem nextKey_text (he : (34 : UInt8) ∉ e) (hr : Delim r) (hne : r ≠ []) :
    nextKey (34 :: (e ++ 34 :: r)) = .skip r := by
  obtain ⟨-, hdrop⟩ := takeWhile_ne (r := r) he
  have hopen : (34 :: (e ++ 34 :: r)).dropWhile (· != 34) = 34 :: (e ++ 34 :: r) := by simp
  rw [nextKey, hopen]
  simp only [hdrop, hne, if_false]
  cases r with
  | nil => exact absurd rfl hne
  | cons c r =>
    have hc : isWs c = false ∧ c ≠ 58 := by
      rcases hr c (by simp) with rfl | rfl <;> decide
    simp only [dropWhile_isWs hc.1, if_neg hc.2]

theorem nextKey_of_not_mem (hp : (34 : UInt8) ∉ p) : nextKey p = .stop := by
  simp [nextKey, (takeWhile_ne_self hp).2]

theorem nextKey_closed (he : (34 : UInt8) ∉ e) : nextKey (34 :: (e ++ [34])) = .stop := by
  simp [nextKey, (takeWhile_ne (r := []) he).2]

theorem Claim.quote_not_mem_name (c : Claim) : (34 : UInt8) ∉ c.name := by
  cases c <;> decide

theorem scanFrom_member {d : UInt8} (c : Claim) (s : Scan) (hb : b ≠ 34) (hd : isWs d = false) :
    scanFrom (b :: member c.name (d :: v)) s =
      (scanValue (d :: v) s c).bind fun x => scanFrom x.1 x.2 := by
  have hkey := nextKey_cons (member c.name (d :: v)) hb
  rw [nextKey_member c.quote_not_mem_name hd] at hkey
  rw [scanFrom_key hkey, scanClaim, c.ofKey_name]

/-- A string member of an unknown key is passed over, as a key that no colon follows. -/
theorem scanFrom_unknown (s : Scan) (hb : b ≠ 34) (hname : (34 : UInt8) ∉ name)
    (hkey : Claim.ofKey name = none) (he : (34 : UInt8) ∉ e) (hr : Delim r) :
    scanFrom (b :: member name (34 :: (e ++ 34 :: r))) s = scanFrom r s := by
  have hfound := nextKey_cons (member name (34 :: (e ++ 34 :: r))) hb
  rw [nextKey_member hname (by decide)] at hfound
  rw [scanFrom_key hfound, scanClaim, hkey, bind_some]
  cases r with
  | nil => rw [scanFrom_stop (nextKey_closed he), scanFrom_nil]
  | cons c r => rw [scanFrom_skip (nextKey_text he hr (by simp))]

/-! ## §4 Values -/

theorem isWs_of_isDigit (h : Decimal.isDigit b = true) : isWs b = false := by
  have hall : ∀ b : Fin 256, Decimal.isDigit (UInt8.ofFin b) = true → isWs (UInt8.ofFin b) =
    false := by
    decide +kernel
  simpa using hall b.toFin (by simpa using h)

theorem exists_decimal_cons (n : Nat) : ∃ d ds, decimal n = d :: ds ∧ Decimal.isDigit d = true := by
  cases h : decimal n with
  | nil => exact absurd h (decimal_ne_nil n)
  | cons d ds => exact ⟨d, ds, rfl, isDigit_of_mem_decimal n d (by simp [h])⟩

theorem onNumber_decimal (n : UInt64) (s : Scan) (f : UInt64 → Scan) (hr : NoDigitHead r) :
    onNumber (decimal n.toNat ++ r) s f = some (r, f n) := by
  obtain ⟨d, ds, hd, hdig⟩ := exists_decimal_cons n.toNat
  have hhead : ((decimal n.toNat ++ r).head?.any Decimal.isDigit) = true := by simp [hd, hdig]
  rw [onNumber, if_pos hhead, strtoull_decimal n hr]

theorem scanFrom_number (c : Claim) (n : UInt64) (s : Scan) (f : UInt64 → Scan) (hb : b ≠ 34)
    (hc : ∀ p, scanValue p s c = onNumber p s f) (hr : NoDigitHead r) :
    scanFrom (b :: member c.name (decimal n.toNat ++ r)) s = scanFrom r (f n) := by
  have hvalue := onNumber_decimal n s f hr
  obtain ⟨d, ds, hd, hdig⟩ := exists_decimal_cons n.toNat
  rw [hd, cons_append] at hvalue ⊢
  rw [scanFrom_member c s hb (isWs_of_isDigit hdig), hc, hvalue]
  rfl

theorem readQuoted_closed (he : (34 : UInt8) ∉ e) : readQuoted (e ++ 34 :: r) = (e, r) := by
  obtain ⟨htake, hdrop⟩ := takeWhile_ne (r := r) he
  simp [readQuoted, htake, hdrop]

theorem readQuoted_open (he : (34 : UInt8) ∉ e) : readQuoted e = (e, []) := by
  obtain ⟨htake, hdrop⟩ := takeWhile_ne_self he
  simp [readQuoted, htake, hdrop]

theorem onQuoted_cons (q : Bytes) (s : Scan) (f : Bytes → Scan) :
    onQuoted (34 :: q) s f = some ((readQuoted q).2, f (readQuoted q).1) := by
  simp [onQuoted]

theorem scanFrom_text (c : Claim) (s : Scan) (f : Bytes → Scan) (hb : b ≠ 34)
    (hc : ∀ p, scanValue p s c = onQuoted p s f) (he : (34 : UInt8) ∉ e) :
    scanFrom (b :: member c.name (34 :: (e ++ 34 :: r))) s = scanFrom r (f e) := by
  rw [scanFrom_member c s hb (by decide), hc, onQuoted_cons, readQuoted_closed he]
  rfl

theorem scanFrom_text_cut (c : Claim) (s : Scan) (f : Bytes → Scan) (hb : b ≠ 34)
    (hc : ∀ p, scanValue p s c = onQuoted p s f) (he : (34 : UInt8) ∉ e) :
    scanFrom (b :: member c.name (34 :: e)) s = some (f e) := by
  rw [scanFrom_member c s hb (by decide), hc, onQuoted_cons, readQuoted_open he]
  exact scanFrom_nil _

/-! ## §5 Id lists -/

/-- The decimal ids with commas between them. -/
def idsText (ids : List UInt64) : Bytes := [44].intercalate (ids.map fun i => decimal i.toNat)

theorem idsText_nil : idsText [] = [] := rfl

theorem intercalate_comma (t : Bytes) (ts : List Bytes) :
    [44].intercalate (t :: ts) = t ++ ts.flatMap (44 :: ·) := by
  induction ts generalizing t with
  | nil => simp [intercalate]
  | cons u ts ih =>
    rw [intercalate_cons_cons, ih u]
    simp

/-- The ids behind the first one, each behind its comma. -/
def moreIds (ids : List UInt64) : Bytes := ids.flatMap fun i => 44 :: decimal i.toNat

theorem idsText_cons (i : UInt64) (ids : List UInt64) :
    idsText (i :: ids) = decimal i.toNat ++ moreIds ids := by
  rw [idsText, map_cons, intercalate_comma, moreIds, flatMap_map]

theorem noDigitHead_moreIds (hr : NoDigitHead r) : NoDigitHead (moreIds ids ++ r) := by
  cases ids with
  | nil => exact hr
  | cons i ids => exact noDigitHead_cons (by decide)

/-- What ends an id list: its bracket, or the end of the text. -/
def IdsEnd (r : Bytes) : Prop := r = [] ∨ r.head? = some 93

theorem IdsEnd.noDigitHead (h : IdsEnd r) : NoDigitHead r := by
  rcases h with rfl | h
  · exact noDigitHead_nil
  · intro b hb
    rw [h] at hb
    cases hb
    decide

theorem scanIds_step {sep : Bytes} (i : UInt64) (hsep : ∀ b ∈ sep, isSep b = true)
    (hr : NoDigitHead r) :
    scanIds (room + 1) (sep ++ (decimal i.toNat ++ r)) =
      (i :: (scanIds room r).1, (scanIds room r).2) := by
  obtain ⟨d, ds, hd, hdig⟩ := exists_decimal_cons i.toNat
  have hdsep : isSep d = false := by
    have hall : ∀ b : Fin 256, Decimal.isDigit (UInt8.ofFin b) = true → isSep (UInt8.ofFin b) =
      false := by
      decide +kernel
    simpa using hall d.toFin (by simpa using hdig)
  have hskip : (sep ++ (decimal i.toNat ++ r)).dropWhile isSep = decimal i.toNat ++ r := by
    rw [dropWhile_append_of_pos hsep, hd]
    simp [hdsep]
  have hgo : ¬(sep ++ (decimal i.toNat ++ r) = [] ∨
      (sep ++ (decimal i.toNat ++ r)).head? = some 93) := by
    cases sep with
    | nil =>
      rw [hd]
      simp only [nil_append, cons_append, cons_ne_nil, List.head?_cons, some.injEq, false_or]
      rintro rfl
      exact absurd hdig (by decide)
    | cons b sep =>
      simp only [cons_append, cons_ne_nil, List.head?_cons, some.injEq, false_or]
      rintro rfl
      exact absurd (hsep 93 (by simp)) (by decide)
  have hhead : ((decimal i.toNat ++ r).head?.any Decimal.isDigit) = true := by simp [hd, hdig]
  rw [scanIds, if_neg hgo]
  simp only [hskip, hhead, if_true, strtoull_decimal i hr]

theorem scanIds_end (hr : IdsEnd r) : scanIds room r = ([], r) := by
  cases room with
  | zero => rfl
  | succ room => rw [scanIds, if_pos (show r = [] ∨ r.head? = some 93 from hr)]

theorem scanIds_moreIds (hlen : ids.length ≤ room) (hr : IdsEnd r) :
    scanIds room (moreIds ids ++ r) = (ids, r) := by
  induction ids generalizing room with
  | nil => exact scanIds_end hr
  | cons i ids ih =>
    obtain ⟨room, rfl⟩ : ∃ k, room = k + 1 :=
      ⟨room - 1, by rw [length_cons] at hlen; omega⟩
    have hsplit : moreIds (i :: ids) ++ r = [44] ++ (decimal i.toNat ++ (moreIds ids ++ r)) := by
      simp [moreIds]
    rw [hsplit, scanIds_step i (forall_of_all (by decide)) (noDigitHead_moreIds hr.noDigitHead),
      ih (by simpa using hlen)]

/-- A list of up to `room` ids is read back, whether its bracket is there or not. -/
theorem scanIds_idsText (hlen : ids.length ≤ room) (hr : IdsEnd r) :
    scanIds room (idsText ids ++ r) = (ids, r) := by
  cases ids with
  | nil => exact scanIds_end hr
  | cons i ids =>
    obtain ⟨room, rfl⟩ : ∃ k, room = k + 1 :=
      ⟨room - 1, by rw [length_cons] at hlen; omega⟩
    rw [idsText_cons, append_assoc]
    have hfirst : scanIds (room + 1) ([] ++ (decimal i.toNat ++ (moreIds ids ++ r))) = _ :=
      scanIds_step i (by simp) (noDigitHead_moreIds hr.noDigitHead)
    rw [nil_append] at hfirst
    rw [hfirst, scanIds_moreIds (by simpa using hlen) hr]

theorem scanIds_cases (room : Nat) (p : Bytes) :
    (scanIds room p).1 = [] ∨ ∃ k, (p.dropWhile isSep).takeWhile Decimal.isDigit ≠ [] ∧
      (scanIds room p).1 =
        (strtoull (p.dropWhile isSep)).1 :: (scanIds k (strtoull (p.dropWhile isSep)).2).1 := by
  cases room with
  | zero => exact .inl rfl
  | succ room =>
    rw [scanIds]
    split
    · exact .inl rfl
    · dsimp only
      split
      · next hd =>
        refine .inr ⟨room, ?_, rfl⟩
        cases hq : p.dropWhile isSep with
        | nil => simp [hq] at hd
        | cons b q =>
          have hb : Decimal.isDigit b = true := by simpa [hq] using hd
          simp [hb]
      · exact .inl rfl

theorem noDigitHead_strtoull (p : Bytes) : NoDigitHead (strtoull p).2 := by
  intro b hb
  have h := List.head?_dropWhile_not Decimal.isDigit p
  change b ∈ (p.dropWhile Decimal.isDigit).head? at hb
  rw [mem_def] at hb
  simpa [hb] using h

theorem length_moreIds_scanIds_le (room : Nat) (hp : NoDigitHead p) :
    (moreIds (scanIds room p).1).length ≤ p.length := by
  induction hn : p.length using Nat.strongRecOn generalizing room p with
  | ind n ih =>
    rcases scanIds_cases room p with h | ⟨k, hne, h⟩
    · simp [h, moreIds]
    · have hsep := length_dropWhile_le isSep p
      have hread := length_decimal_strtoull_le hne
      have hadd := length_strtoull_add (p.dropWhile isSep)
      -- a number follows, so the text went on with a separator
      have hlt : (p.dropWhile isSep).length < p.length := by
        refine lt_of_le_of_ne hsep fun heq => ?_
        have hsame := (dropWhile_suffix (l := p) isSep).eq_of_length heq
        rw [hsame] at hne
        cases p with
        | nil => exact hne rfl
        | cons b p =>
          have hb : Decimal.isDigit b = false := hp b (by simp)
          simp [hb] at hne
      have hrest := ih _ (by omega) k (noDigitHead_strtoull (p.dropWhile isSep)) rfl
      rw [h, moreIds, flatMap_cons, length_append, length_cons, ← moreIds]
      omega

/-- Ids never print longer than the text they were read from. -/
theorem length_idsText_scanIds_le (room : Nat) (p : Bytes) :
    (idsText (scanIds room p).1).length ≤ p.length := by
  rcases scanIds_cases room p with h | ⟨k, hne, h⟩
  · simp [h, idsText_nil]
  · have hsep := length_dropWhile_le isSep p
    have hread := length_decimal_strtoull_le hne
    have hadd := length_strtoull_add (p.dropWhile isSep)
    have hrest := length_moreIds_scanIds_le k (noDigitHead_strtoull (p.dropWhile isSep))
    rw [h, idsText_cons, length_append]
    omega

/-- A cut list is read back only when the cut takes no id. -/
theorem scanIds_take_eq_iff (hlen : ids.length ≤ 64) (n : Nat) :
    (scanIds 64 ((idsText ids).take n)).1 = ids ↔ (idsText ids).length ≤ n := by
  constructor
  · intro h
    have hle := length_idsText_scanIds_le 64 ((idsText ids).take n)
    rw [h, length_take] at hle
    omega
  · intro h
    have hread : scanIds 64 (idsText ids ++ []) = (ids, []) := scanIds_idsText hlen (.inl rfl)
    rw [append_nil] at hread
    rw [take_of_length_le h, hread]

theorem mem_idsText (h : b ∈ idsText ids) : Decimal.isDigit b = true ∨ b = 44 := by
  cases ids with
  | nil => simp [idsText_nil] at h
  | cons i ids =>
    rw [idsText_cons, mem_append] at h
    rcases h with h | h
    · exact .inl (isDigit_of_mem_decimal _ b h)
    · obtain ⟨j, -, hj⟩ := mem_flatMap.mp h
      rcases mem_cons.mp hj with rfl | hj
      · exact .inr rfl
      · exact .inl (isDigit_of_mem_decimal _ b hj)

theorem not_mem_idsText (ids : List UInt64) (hd : Decimal.isDigit b = false) (hc : b ≠ 44) :
    b ∉ idsText ids := by
  intro h
  rcases mem_idsText h with h | h
  · rw [hd] at h
    cases h
  · exact hc h

theorem readIds_closed (hlen : ids.length ≤ 64) :
    readIds (idsText ids ++ 93 :: r) [] = (ids, r) := by
  rw [readIds, scanIds_idsText hlen (.inr rfl)]
  by_cases h : ids = [] <;> simp [h]

theorem readIds_cut (hp : (93 : UInt8) ∉ p) : readIds p [] = ((scanIds 64 p).1, []) := by
  have hrest : (93 : UInt8) ∉ (scanIds 64 p).2 := fun h => hp ((scanIds_suffix 64 p).subset h)
  have hdrop := (takeWhile_ne_self hrest).2
  rw [readIds]
  by_cases h : (scanIds 64 p).1 = [] <;> simp [h, hdrop]

theorem onIds_cons (q : Bytes) (s : Scan) (old : List UInt64) (f : List UInt64 → Scan) :
    onIds (91 :: q) s old f = some ((readIds q old).2, f (readIds q old).1) := by
  simp [onIds]

theorem scanFrom_ids (c : Claim) (s : Scan) (f : List UInt64 → Scan) (hb : b ≠ 34)
    (hc : ∀ p, scanValue p s c = onIds p s [] f) (hlen : ids.length ≤ 64) :
    scanFrom (b :: member c.name (91 :: (idsText ids ++ 93 :: r))) s = scanFrom r (f ids) := by
  rw [scanFrom_member c s hb (by decide), hc, onIds_cons, readIds_closed hlen]
  rfl

theorem scanFrom_ids_cut {q : Bytes} (c : Claim) (s : Scan) (f : List UInt64 → Scan) (hb : b ≠ 34)
    (hc : ∀ p, scanValue p s c = onIds p s [] f) (hq : (93 : UInt8) ∉ q) :
    scanFrom (b :: member c.name (91 :: q)) s = some (f (scanIds 64 q).1) := by
  rw [scanFrom_member c s hb (by decide), hc, onIds_cons, readIds_cut hq]
  exact scanFrom_nil _

/-! ## §6 The `cnf` object -/

theorem cnfLoop_member (rest jkt : Bytes) :
    cnfLoop.run (member (lit "jkt") (34 :: rest), jkt) =
      cnfLoop.run ((readQuoted rest).2.dropWhile fun c => c == 32 || c == 44,
        storeText 64 (readQuoted rest).1 jkt) := by
  have hkey : readQuoted (lit "jkt" ++ 34 :: 58 :: 34 :: rest) = (lit "jkt", 58 :: 34 :: rest) :=
    readQuoted_closed (by decide)
  refine While.run_of_inr ?_
  change cnfBody (member (lit "jkt") (34 :: rest), jkt) = _
  simp [cnfBody, member, hkey, cnfValue]

theorem cnfLoop_nil (jkt : Bytes) : cnfLoop.run ([], jkt) = some ([], jkt) :=
  While.run_of_inl rfl

theorem cnfLoop_brace (r jkt : Bytes) : cnfLoop.run (125 :: r, jkt) = some (r, jkt) :=
  While.run_of_inl (by simp [cnfLoop, cnfBody])

/-- The `cnf` object of a payload, up to wherever the text ends. -/
theorem cnfLoop_jkt (jkt : Bytes) (he : (34 : UInt8) ∉ e) (n : Nat) :
    ∃ r', cnfLoop.run (member (lit "jkt") (34 :: (e ++ 34 :: 125 :: r).take n), jkt) =
      some (r', storeText 64 (e.take n) jkt) ∧ r' <:+: r := by
  rw [cnfLoop_member]
  rcases Nat.lt_or_ge e.length n with h | h
  · obtain ⟨k, rfl⟩ : ∃ k, n = e.length + (k + 1) := ⟨n - e.length - 1, by omega⟩
    have hcut : (e ++ 34 :: 125 :: r).take (e.length + (k + 1)) = e ++ 34 :: (125 :: r).take k := by
      rw [take_length_add_append, take_succ_cons]
    rw [hcut, readQuoted_closed he, take_of_length_le (by omega : e.length ≤ _)]
    cases k with
    | zero => exact ⟨[], cnfLoop_nil _, nil_infix⟩
    | succ k =>
      have hcopy : r.take k <+: r := take_prefix k r
      refine ⟨r.take k, ?_, hcopy.isInfix⟩
      simpa using cnfLoop_brace (r.take k) (storeText 64 e jkt)
  · have hcut : (e ++ 34 :: 125 :: r).take n = e.take n := by
      rw [take_append_of_le_length h]
    rw [hcut, readQuoted_open fun hm => he (mem_of_mem_take hm)]
    exact ⟨[], cnfLoop_nil _, nil_infix⟩

end SsoSystem
