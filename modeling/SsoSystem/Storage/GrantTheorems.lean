/-
SsoSystem.Storage.GrantTheorems — lookups after writes in the tables of
one-time credentials.

A credential that is spent (a used code, a revoked refresh token) stays spent
under every write: new rows are appended behind the row a lookup finds, and
the other writes only set flags.
-/
import Mathlib.Data.List.Nodup
import SsoSystem.Storage.Grants

namespace SsoSystem

open CMem List

/-- `strcmp` compares up to the terminators. -/
theorem strEq_iff {a b : Bytes} : strEq a b = true ↔ cstr a = cstr b := by
  simp [strEq]

/-! ## §1 Changing the first match -/

section UpdateFirst

variable {α : Type} {p q : α → Bool} {f : α → α}

/-- The row that is changed is the row that is found. -/
theorem find?_updateFirst_self (hf : ∀ x, p (f x) = p x) (l : List α) :
    (updateFirst p f l).find? p = (l.find? p).map f := by
  fun_induction updateFirst p f l with
  | case1 => rfl
  | case2 x xs hx => simp [hf x, hx]
  | case3 x xs hx ih => simpa [hx] using ih

/-- Another search finds its row unchanged, or it is the one that was changed. -/
theorem find?_updateFirst (hf : ∀ x, q (f x) = q x) (l : List α) :
    (updateFirst p f l).find? q = l.find? q ∨ (updateFirst p f l).find? q = (l.find? q).map f := by
  fun_induction updateFirst p f l with
  | case1 => exact .inl rfl
  | case2 x xs =>
    cases hq : q x with
    | true => exact .inr (by simp [hf x, hq])
    | false => exact .inl (by simp [hf x, hq])
  | case3 x xs _ ih =>
    cases hq : q x with
    | true => exact .inl (by simp [hq])
    | false => simpa [hq] using ih

/-- No row is new. -/
theorem mem_updateFirst {y : α} {l : List α} (h : y ∈ updateFirst p f l) : ∃ x ∈ l, y = x ∨
    y = f x := by
  fun_induction updateFirst p f l with
  | case1 => cases h
  | case2 x xs =>
    rcases mem_cons.mp h with rfl | hy
    · exact ⟨x, mem_cons_self, .inr rfl⟩
    · exact ⟨y, mem_cons_of_mem _ hy, .inl rfl⟩
  | case3 x xs _ ih =>
    rcases mem_cons.mp h with rfl | hy
    · exact ⟨y, mem_cons_self, .inl rfl⟩
    · obtain ⟨z, hz, hyz⟩ := ih hy
      exact ⟨z, mem_cons_of_mem _ hz, hyz⟩

/-- A column that is not written stays. -/
theorem map_updateFirst {β : Type} {g : α → β} (hg : ∀ x, g (f x) = g x) (l : List α) :
    (updateFirst p f l).map g = l.map g := by
  fun_induction updateFirst p f l with
  | case1 => rfl
  | case2 x xs => simp [hg x]
  | case3 x xs _ ih => simp [ih]

end UpdateFirst

namespace Grants

variable {g : Grants}

/-! ## §2 Refresh tokens -/

/-- A new row is found only if no older row has its hash. -/
theorem refreshTokenGet_create (rt : RefreshToken) (hash : Bytes) :
    (g.refreshTokenCreate rt).refreshTokenGet hash =
      (g.refreshTokenGet hash).or (if strEq rt.tokenHash hash then some rt else none) := by
  simp [refreshTokenGet, refreshTokenCreate, find?_append, find?_singleton]

/-- Revoking marks the row that `refresh_token_get` returns. -/
theorem refreshTokenGet_revoke_self (hash : Bytes) :
    (g.refreshTokenRevoke hash).refreshTokenGet hash =
      (g.refreshTokenGet hash).map fun rt => { rt with revoked := true } := by
  apply find?_updateFirst_self
  intro rt
  rfl

/-- Revoking marks at most the one row. -/
theorem refreshTokenGet_revoke (hash hash' : Bytes) :
    (g.refreshTokenRevoke hash).refreshTokenGet hash' = g.refreshTokenGet hash' ∨
      (g.refreshTokenRevoke hash).refreshTokenGet hash' =
        (g.refreshTokenGet hash').map fun rt => { rt with revoked := true } := by
  apply find?_updateFirst
  intro rt
  rfl

/-- A family is all the rows of a user with a client. -/
theorem refreshTokenGet_revokeFamily (userId : Nat) (clientId hash : Bytes) :
    (g.refreshTokenRevokeFamily userId clientId).refreshTokenGet hash =
      (g.refreshTokenGet hash).map fun rt =>
        if rt.userId == userId &&
          strEq rt.clientId clientId then { rt with revoked := true } else rt := by
  have hkey : (fun rt : RefreshToken => strEq rt.tokenHash hash) ∘ (fun rt : RefreshToken =>
      if rt.userId == userId && strEq rt.clientId clientId then { rt with revoked := true } else rt)
        =
      fun rt => strEq rt.tokenHash hash := by
    funext rt
    simp only [Function.comp_apply]
    split <;> rfl
  unfold refreshTokenGet refreshTokenRevokeFamily
  rw [find?_map, hkey]

/-- Hashes are C strings: bytes after the terminator do not count. -/
theorem refreshTokenGet_congr {hash hash' : Bytes} (h : cstr hash' = cstr hash) :
    g.refreshTokenGet hash' = g.refreshTokenGet hash := by
  simp only [refreshTokenGet, strEq, h]

/-- A lookup under this hash finds a revoked token. -/
def RefreshSpent (g : Grants) (hash : Bytes) : Prop :=
  ∃ rt, g.refreshTokenGet hash = some rt ∧ rt.revoked = true

variable {hash clientId code : Bytes} {rt : RefreshToken} {c : OauthClient} {g' : Grants}

/-- A spent hash stays spent when a row is added, since the older row is found first. -/
theorem RefreshSpent.create (h : g.RefreshSpent hash) (rt : RefreshToken) :
    (g.refreshTokenCreate rt).RefreshSpent hash := by
  obtain ⟨old, hget, hrevoked⟩ := h
  exact ⟨old, by simp [refreshTokenGet_create, hget], hrevoked⟩

/-- Nothing is taken back by another revocation. -/
theorem RefreshSpent.revoke (h : g.RefreshSpent hash) (hash' : Bytes) :
    (g.refreshTokenRevoke hash').RefreshSpent hash := by
  obtain ⟨rt, hget, hrevoked⟩ := h
  rcases refreshTokenGet_revoke (g := g) hash' hash with heq | heq
  · exact ⟨rt, heq.trans hget, hrevoked⟩
  · exact ⟨{ rt with revoked := true }, by rw [heq, hget]; rfl, rfl⟩

/-- Nor by the revocation of a family. -/
theorem RefreshSpent.revokeFamily (h : g.RefreshSpent hash) (userId : Nat)
    (clientId : Bytes) : (g.refreshTokenRevokeFamily userId clientId).RefreshSpent hash := by
  obtain ⟨rt, hget, hrevoked⟩ := h
  refine ⟨_, by rw [refreshTokenGet_revokeFamily, hget]; rfl, ?_⟩
  dsimp only
  split
  · rfl
  · exact hrevoked

/-- A token that was found and is revoked is spent. -/
theorem refreshSpent_revoke (hget : g.refreshTokenGet hash = some rt) :
    (g.refreshTokenRevoke hash).RefreshSpent hash :=
  ⟨{ rt with revoked := true }, by rw [refreshTokenGet_revoke_self, hget]; rfl, rfl⟩

/-- So is each token of a family that is revoked. -/
theorem refreshSpent_revokeFamily {userId : Nat}
    (hget : g.refreshTokenGet hash = some rt) (huser : rt.userId = userId)
    (hclient : strEq rt.clientId clientId = true) :
    (g.refreshTokenRevokeFamily userId clientId).RefreshSpent hash := by
  refine ⟨_, by rw [refreshTokenGet_revokeFamily, hget]; rfl, ?_⟩
  simp [huser, hclient]

/-! ## §3 Authorization codes -/

/-- As for refresh tokens, the older row with the same code wins. -/
theorem oauthCodeGet_create (ac : AuthCode) (code : Bytes) :
    (g.oauthCodeCreate ac).oauthCodeGet code =
      (g.oauthCodeGet code).or (if strEq ac.code code then some ac else none) := by
  simp [oauthCodeGet, oauthCodeCreate, find?_append, find?_singleton]

/-- At most one code is marked. -/
theorem oauthCodeGet_markUsed (code code' : Bytes) :
    (g.oauthCodeMarkUsed code).oauthCodeGet code' = g.oauthCodeGet code' ∨
      (g.oauthCodeMarkUsed code).oauthCodeGet code' =
        (g.oauthCodeGet code').map fun ac => { ac with used := true } := by
  apply find?_updateFirst
  intro ac
  rfl

/-- A lookup of this code finds one that was used. -/
def CodeSpent (g : Grants) (code : Bytes) : Prop :=
    ∃ ac, g.oauthCodeGet code = some ac ∧ ac.used = true

/-- A used code stays used when codes are added. -/
theorem CodeSpent.create (h : g.CodeSpent code) (ac : AuthCode) :
    (g.oauthCodeCreate ac).CodeSpent code := by
  obtain ⟨old, hget, hused⟩ := h
  exact ⟨old, by simp [oauthCodeGet_create, hget], hused⟩

/-- A used code stays used when others are redeemed. -/
theorem CodeSpent.markUsed (h : g.CodeSpent code) (code' : Bytes) :
    (g.oauthCodeMarkUsed code').CodeSpent code := by
  obtain ⟨ac, hget, hused⟩ := h
  rcases oauthCodeGet_markUsed (g := g) code' code with heq | heq
  · exact ⟨ac, heq.trans hget, hused⟩
  · exact ⟨{ ac with used := true }, by rw [heq, hget]; rfl, rfl⟩

/-- Codes are C strings too. -/
theorem oauthCodeGet_congr {code code' : Bytes} (h : cstr code' = cstr code) :
    g.oauthCodeGet code' = g.oauthCodeGet code := by
  simp only [oauthCodeGet, strEq, h]

/-- A code that was found and is marked is spent. -/
theorem codeSpent_markUsed {code code' : Bytes} {ac : AuthCode}
    (hget : g.oauthCodeGet code = some ac)
    (hsame : cstr code' = cstr code) : (g.oauthCodeMarkUsed code').CodeSpent code := by
  refine ⟨{ ac with used := true }, ?_, rfl⟩
  have hfind := find?_updateFirst_self (p := fun x : AuthCode => strEq x.code code')
    (f := fun x => { x with used := true }) (fun _ => rfl) g.codes
  rw [← oauthCodeGet_congr hsame] at hget ⊢
  rw [oauthCodeGet] at hget ⊢
  simpa [oauthCodeMarkUsed, hget] using hfind

/-! ## §4 SMS codes -/

/-- Saved codes have numbers of their own, below the next one. -/
structure SmsOk (g : Grants) : Prop where
  nodup : (g.smsCodes.map SmsCode.serial).Nodup
  below : ∀ r ∈ g.smsCodes, r.serial < g.smsSaved

/-- If the code with this number is still there, a lookup of the phone finds it. -/
structure SmsHeld (g : Grants) (phone : Bytes) (n : Nat) : Prop where
  below : n < g.smsSaved
  row : ∀ r ∈ g.smsCodes, r.serial = n → g.smsRow phone = some r

/-- The code with this number is gone. -/
structure SmsGone (g : Grants) (n : Nat) : Prop where
  below : n < g.smsSaved
  row : ∀ r ∈ g.smsCodes, r.serial ≠ n

section SmsRows

variable {p q : SmsCode → Bool} {f : SmsCode → SmsCode} {n : Nat} {r : SmsCode} {l : List SmsCode}

/-- A row that is overwritten gets a serial number of its own. -/
theorem nodup_updateFirst (hf : ∀ x, (f x).serial = n)
    (hnodup : (l.map SmsCode.serial).Nodup) (hbelow : ∀ x ∈ l, x.serial < n) :
    ((updateFirst p f l).map SmsCode.serial).Nodup := by
  fun_induction updateFirst p f l with
  | case1 => exact hnodup
  | case2 x xs =>
    rw [map_cons, nodup_cons] at hnodup ⊢
    rw [hf]
    refine ⟨fun hmem => ?_, hnodup.2⟩
    obtain ⟨y, hy, hyn⟩ := mem_map.mp hmem
    exact absurd (hbelow y (mem_cons_of_mem _ hy)) (by omega)
  | case3 x xs _ ih =>
    rw [map_cons, nodup_cons] at hnodup ⊢
    obtain ⟨hx, hxs⟩ := forall_mem_cons.mp hbelow
    refine ⟨fun hmem => ?_, ih hnodup.2 hxs⟩
    obtain ⟨y, hy, hyx⟩ := mem_map.mp hmem
    obtain ⟨z, hz, rfl | rfl⟩ := mem_updateFirst hy
    · exact hnodup.1 (mem_map.mpr ⟨y, hz, hyx⟩)
    · rw [hf] at hyx
      omega

/-- A row that outlives the overwriting of another is still the one found. -/
theorem find?_updateFirst_of_mem (hf : ∀ x, (f x).serial = n) (hq : ∀ x, q (f x) = q x)
    (hnodup : (l.map SmsCode.serial).Nodup) (hbelow : ∀ x ∈ l, x.serial < n)
    (hfind : l.find? q = some r)
    (hmem : r ∈ updateFirst p f l) : (updateFirst p f l).find? q = some r := by
  induction l with
  | nil => cases hfind
  | cons x xs ih =>
    rw [map_cons, nodup_cons] at hnodup
    have hx := hbelow x mem_cons_self
    unfold updateFirst at hmem ⊢
    cases hqx : q x with
    | true =>
      rw [find?_cons_of_pos hqx] at hfind
      cases hfind
      split at hmem
      · rcases mem_cons.mp hmem with heq | hmem
        · exact absurd (congrArg SmsCode.serial heq) (by rw [hf]; omega)
        · exact absurd (mem_map.mpr ⟨r, hmem, rfl⟩) hnodup.1
      · next hp => simp [hp, hqx]
    | false =>
      rw [find?_cons_of_neg (by simp [hqx])] at hfind
      split at hmem
      · next hp => simp [hp, hq x, hqx, hfind]
      · next hp =>
        rcases mem_cons.mp hmem with rfl | hmem
        · exact absurd (find?_some hfind) (by simp [hqx])
        · have hrest := ih hnodup.2 (fun y hy => hbelow y (mem_cons_of_mem _ hy)) hfind hmem
          simp [hp, hqx, hrest]

/-- A row that outlives the deletion of another is still the one found. -/
theorem find?_eraseP_of_mem (hnodup : (l.map SmsCode.serial).Nodup)
    (hfind : l.find? q = some r) (hmem : r ∈ l.eraseP p) : (l.eraseP p).find? q = some r := by
  rcases exists_or_eq_self_of_eraseP p l with h | ⟨a, l₁, l₂, -, -, rfl, h⟩
  · rw [h]
    exact hfind
  · have hne := (nodup_cons.mp (nodup_middle.mp hnodup.of_map)).1
    rw [h] at hmem ⊢
    rw [find?_append] at hfind ⊢
    cases hq : q a with
    | false => simpa [hq] using hfind
    | true =>
      -- the lookup stopped in front of the removed row
      cases h₁ : l₁.find? q with
      | none =>
        simp only [h₁, find?_cons_of_pos hq, Option.none_or] at hfind
        cases hfind
        exact absurd hmem hne
      | some x => simpa [h₁] using hfind

/-- The row that was found is the one that is deleted. -/
theorem not_mem_eraseP_of_find? (hnodup : (l.map SmsCode.serial).Nodup)
    (hfind : l.find? p = some r) : r ∉ l.eraseP p := by
  obtain ⟨hp, l₁, l₂, rfl, hl₁⟩ := find?_eq_some_iff_append.mp hfind
  rw [eraseP_append_right _ fun x hx => by simpa using hl₁ x hx, eraseP_cons_of_pos hp]
  exact (nodup_cons.mp (nodup_middle.mp hnodup.of_map)).1

end SmsRows

variable {n : Nat} {phone : Bytes}

/-- Saving a code keeps the serial numbers apart, whether it adds a row or overwrites one. -/
theorem SmsOk.save (h : g.SmsOk) (phone code : Bytes) (expiresAt : Int64) :
    (g.saveSmsCode phone code expiresAt).SmsOk := by
  unfold saveSmsCode
  split
  · refine ⟨?_, fun r hr => ?_⟩
    · refine nodup_updateFirst ?_ h.nodup h.below
      intro r
      rfl
    obtain ⟨x, hx, rfl | rfl⟩ := mem_updateFirst hr
    · exact Nat.lt_succ_of_lt (h.below r hx)
    · exact Nat.lt_succ_self _
  · refine ⟨?_, fun r hr => ?_⟩
    · rw [map_append, map_cons, map_nil]
      refine List.Nodup.append h.nodup (nodup_singleton _) ?_
      intro m hm hm'
      obtain ⟨x, hx, rfl⟩ := mem_map.mp hm
      exact absurd (mem_singleton.mp hm') (Nat.ne_of_lt (h.below x hx))
    · rcases mem_append.mp hr with hr | hr
      · exact Nat.lt_succ_of_lt (h.below r hr)
      · rw [mem_singleton.mp hr]
        exact Nat.lt_succ_self _

/-- Deleting a code keeps them apart. -/
theorem SmsOk.delete (h : g.SmsOk) (phone : Bytes) : (g.deleteSmsCode phone).SmsOk :=
  ⟨h.nodup.sublist ((eraseP_sublist).map _), fun r hr => h.below r (mem_of_mem_eraseP hr)⟩

/-- Phone numbers are C strings. -/
theorem smsRow_congr {phone phone' : Bytes} (h : cstr phone' = cstr phone) : g.smsRow phone' =
    g.smsRow phone := by
  simp only [smsRow, strEq, h]

/-- The code that is found for a phone is held for it. -/
theorem smsHeld_of_row (h : g.SmsOk) {r : SmsCode} (hrow : g.smsRow phone = some r) :
    g.SmsHeld phone r.serial :=
  ⟨h.below r (mem_of_find?_eq_some hrow), fun _ hr' heq =>
    inj_on_of_nodup_map h.nodup hr' (mem_of_find?_eq_some hrow) heq ▸ hrow⟩

/-- A held serial stays in its place, or is overwritten and never seen again. -/
theorem SmsHeld.save (hok : g.SmsOk) (h : g.SmsHeld phone n) (phone' code : Bytes)
    (expiresAt : Int64) :
    (g.saveSmsCode phone' code expiresAt).SmsHeld phone n := by
  have hbelow := h.below
  unfold saveSmsCode
  refine ⟨Nat.lt_succ_of_lt hbelow, fun r hr hn => ?_⟩
  unfold smsRow
  split at hr
  · next hany =>
    rw [if_pos hany]
    obtain ⟨x, hx, rfl | rfl⟩ := mem_updateFirst hr
    · refine find?_updateFirst_of_mem ?_ ?_ hok.nodup hok.below (h.row r hx hn) hr
      · exact fun _ => rfl
      · exact fun _ => rfl
    · exact absurd hn (Nat.ne_of_gt hbelow)
  · next hany =>
    rw [if_neg hany]
    rcases mem_append.mp hr with hr | hr
    · have hrow := h.row r hr hn
      rw [smsRow] at hrow
      rw [find?_append, hrow]
      rfl
    · rw [mem_singleton.mp hr] at hn
      exact absurd hn (Nat.ne_of_gt hbelow)

/-- The same for the deletion of a code. -/
theorem SmsHeld.delete (hok : g.SmsOk) (h : g.SmsHeld phone n) (phone' : Bytes) :
    (g.deleteSmsCode phone').SmsHeld phone n :=
  ⟨h.below, fun r hr hn => find?_eraseP_of_mem hok.nodup (h.row r (mem_of_mem_eraseP hr) hn) hr⟩

/-- A serial that is gone does not come back: a saved code gets the next number. -/
theorem SmsGone.save (h : g.SmsGone n) (phone code : Bytes) (expiresAt : Int64) :
    (g.saveSmsCode phone code expiresAt).SmsGone n := by
  have hbelow := h.below
  unfold saveSmsCode
  refine ⟨Nat.lt_succ_of_lt hbelow, fun r hr => ?_⟩
  split at hr
  · obtain ⟨x, hx, rfl | rfl⟩ := mem_updateFirst hr
    · exact h.row r hx
    · exact Nat.ne_of_gt hbelow
  · rcases mem_append.mp hr with hr | hr
    · exact h.row r hr
    · rw [mem_singleton.mp hr]
      exact Nat.ne_of_gt hbelow

/-- Deleting brings no serial back. -/
theorem SmsGone.delete (h : g.SmsGone n) (phone : Bytes) : (g.deleteSmsCode phone).SmsGone n :=
  ⟨h.below, fun r hr => h.row r (mem_of_mem_eraseP hr)⟩

/-- Deleting the code of a phone removes the one that was found for it, if it is still there. -/
theorem smsGone_delete (hok : g.SmsOk) (h : g.SmsHeld phone n) :
    (g.deleteSmsCode phone).SmsGone n :=
  ⟨h.below, fun r hr hn =>
    not_mem_eraseP_of_find? hok.nodup (h.row r (mem_of_mem_eraseP hr) hn) hr⟩

/-! ## §5 Clients -/

/-- Nothing but the clients is different. -/
def ClientsOnly (g g' : Grants) : Prop := ∃ clients nextOcid, g' = { g with clients, nextOcid }

/-- Registering a client touches no code and no token. -/
theorem oauthClientCreate_clientsOnly (h : g.oauthClientCreate c = .ok g') : g.ClientsOnly g' := by
  obtain ⟨-, rfl⟩ := ok_of_else h
  exact ⟨_, _, rfl⟩

/-- Nor does changing one. -/
theorem oauthClientUpdate_clientsOnly (h : g.oauthClientUpdate c = .ok g') : g.ClientsOnly g' := by
  obtain ⟨-, rfl⟩ := ok_of_then h
  exact ⟨_, _, rfl⟩

/-- Nor does deleting one: its codes and refresh tokens stay. -/
theorem oauthClientDelete_clientsOnly (h : g.oauthClientDelete clientId = .ok g') :
    g.ClientsOnly g' := by
  obtain ⟨-, rfl⟩ := ok_of_then h
  exact ⟨_, _, rfl⟩

end Grants

end SsoSystem
