/-
SsoSystem.Permission.AuditChainTheorems — the last signature of the audit log
stands for all of it.

With a secret, every entry is signed over the signature before it and its own
text; decisions and admin entries share one chain, whatever file they go to.
A signature has 32 bytes, so a signed message is split in one way only.

Of the HMAC only this is assumed: signatures have 32 bytes, and no two
different messages of the two sequences have the same one.
-/
import SsoSystem.Permission.AdminAudit

namespace SsoSystem

open CMem List

/-! ## §1 Chains of tags -/

section Chain

variable {α : Type} (mac : List α → List α)

/-- The tag of the last entry; each is made of the tag before it and the entry. -/
def chainTag (tag : List α) (entries : List (List α)) : List α :=
  entries.foldl (fun tag p => mac (tag ++ p)) tag

/-- The messages the tags are made of. -/
def chainMessages : List α → List (List α) → List (List α)
  | _, [] => []
  | tag, p :: ps => (tag ++ p) :: chainMessages (mac (tag ++ p)) ps

/-- Without a collision, the last tag commits to the entries and to the tag before them. -/
theorem chain_commits {n : Nat} (hmac : ∀ x, (mac x).length = n) {ps qs : List (List α)}
    {s t : List α} (hs : s.length = n) (ht : t.length = n) (hlen : ps.length = qs.length)
    (hinj : ∀ x ∈ chainMessages mac s ps, ∀ y ∈ chainMessages mac t qs, mac x = mac y → x = y)
    (hlast : chainTag mac s ps = chainTag mac t qs) : s = t ∧ ps = qs := by
  induction ps generalizing s t qs with
  | nil =>
    obtain rfl := eq_nil_of_length_eq_zero hlen.symm
    exact ⟨hlast, rfl⟩
  | cons p ps ih =>
    cases qs with
    | nil => cases hlen
    | cons q qs =>
      have hrest := ih (hmac _) (hmac _) (Nat.succ.inj hlen)
        (fun x hx y hy => hinj x (mem_cons_of_mem _ hx) y (mem_cons_of_mem _ hy)) hlast
      have hfirst := hinj _ mem_cons_self _ mem_cons_self hrest.1
      obtain ⟨rfl, rfl⟩ := append_inj hfirst (hs.trans ht.symm)
      exact ⟨rfl, by rw [hrest.2]⟩

end Chain

/-! ## §2 Runs of the audit log -/

/-- What happens to the audit statics: a context is created, or something is logged. -/
inductive AuditEvent
  | create (cfg : AuditSettings) (yday : Nat)
  | entry (m : AuditMoment) (r : AuditRecord)

/-- The event leaves the secret as it is. -/
def AuditEvent.Keeps (secret : Bytes) : AuditEvent → Prop
  | .create cfg _ => strlcpy 128 cfg.secret = secret
  | .entry _ _ => True

section Run

variable (hmac : Bytes → Bytes → Bytes)

def AuditEvent.apply (a : AuditLog) : AuditEvent → AuditLog × Option AuditLine
  | .create cfg yday => (a.configure cfg yday, none)
  | .entry m r => r.log hmac a m

/-- The entry behind the line an event leaves. -/
def AuditEvent.written (a : AuditLog) : AuditEvent → Option Bytes
  | .create _ _ => none
  | .entry m r => (r.log hmac a m).2.map fun _ => r.payload m

/-- The lines written in a run. -/
def auditRun : AuditLog → List AuditEvent → List AuditLine
  | _, [] => []
  | a, e :: es => (e.apply hmac a).2.toList ++ auditRun (e.apply hmac a).1 es

/-- The entries behind these lines. -/
def auditPayloads : AuditLog → List AuditEvent → List Bytes
  | _, [] => []
  | a, e :: es => (e.written hmac a).toList ++ auditPayloads (e.apply hmac a).1 es

/-- The messages the log signs in a run. -/
def auditMessages (a : AuditLog) (es : List AuditEvent) : List Bytes :=
  chainMessages (hmac a.secret) a.hmacPrev (auditPayloads hmac a es)

/-- The line of an entry and its signature. -/
def signedText (payload sig : Bytes) : Bytes :=
  payload ++ lit ",\"signature\":\"" ++ sig.flatMap hexByte ++ lit "\"\x7d\n"

/-- The lines of a chain. -/
def signedTexts (mac : Bytes → Bytes) : Bytes → List Bytes → List Bytes
  | _, [] => []
  | tag, p :: ps => signedText p (mac (tag ++ p)) :: signedTexts mac (mac (tag ++ p)) ps

variable {a : AuditLog} {secret : Bytes}

/-- One event: nothing is written and the chain stays, or one line is and the chain goes on. -/
theorem AuditEvent.apply_cases (hne : secret ≠ [])
    (ha : a.secret = secret) {e : AuditEvent} (he : e.Keeps secret) :
    (e.apply hmac a).1.secret = secret ∧
    ((e.apply hmac a).2 = none ∧ e.written hmac a = none ∧
        (e.apply hmac a).1.hmacPrev = a.hmacPrev ∨
      ∃ line p, (e.apply hmac a).2 = some line ∧ e.written hmac a = some p ∧
        (e.apply hmac a).1.hmacPrev = hmac secret (a.hmacPrev ++ p) ∧
        line.text = signedText p (hmac secret (a.hmacPrev ++ p))) := by
  cases e with
  | create cfg yday => exact ⟨he, .inl ⟨rfl, rfl, rfl⟩⟩
  | entry m r =>
    simp only [apply, written]
    cases hlog : r.log hmac a m with
    | mk a' line =>
      cases line with
      | none =>
        obtain ⟨hsecret, hprev⟩ := AuditRecord.keeps_of_log_none hlog
        exact ⟨hsecret.trans ha, .inl ⟨rfl, rfl, hprev⟩⟩
      | some line =>
        obtain ⟨a₀, file, hsecret, hprev, hwrite⟩ := AuditRecord.writeEntry_of_log hlog
        rw [AuditLog.writeEntry, if_neg (by rw [hsecret, ha]; exact hne), hprev, hsecret, ha]
          at hwrite
        cases hwrite
        exact ⟨rfl, .inr ⟨_, _, rfl, rfl, rfl, rfl⟩⟩

/-- The lines of a run are a chain. -/
theorem auditRun_eq (hne : secret ≠ []) (ha : a.secret = secret)
    {es : List AuditEvent} (hes : ∀ e ∈ es, e.Keeps secret) :
    (auditRun hmac a es).map AuditLine.text =
      signedTexts (hmac secret) a.hmacPrev (auditPayloads hmac a es) := by
  induction es generalizing a with
  | nil => rfl
  | cons e es ih =>
    rw [forall_mem_cons] at hes
    obtain ⟨hsecret, hstep⟩ := e.apply_cases hmac hne ha hes.1
    rw [auditRun, auditPayloads, map_append, ih hsecret hes.2]
    rcases hstep with ⟨hline, hwritten, hprev⟩ | ⟨line, p, hline, hwritten, hprev, htext⟩
    · rw [hline, hwritten, hprev]
      rfl
    · rw [hline, hwritten, hprev]
      simp [signedTexts, htext]

end Run

/-! ## §3 The last signature -/

/-- The signature in a line: 64 digits in front of the last three bytes. -/
def AuditLine.signature (text : Bytes) : Bytes :=
  (text.take (text.length - 3)).drop (text.length - 67)

/-- The signature in the last line. -/
def lastSignature (lines : List AuditLine) : Option Bytes :=
  (lines.map AuditLine.text).getLast?.map AuditLine.signature

section Last

variable {hmac : Bytes → Bytes → Bytes}

theorem signature_signedText (p : Bytes) {sig : Bytes} (hsig : sig.length = 32) :
    AuditLine.signature (signedText p sig) = sig.flatMap hexByte := by
  have hhex : (sig.flatMap hexByte).length = 64 := by rw [length_flatMap_hexByte, hsig]
  have hend : (lit "\"\x7d\n").length = 3 := by decide
  have hlen : (signedText p sig).length = (p ++ lit ",\"signature\":\"").length + 67 := by
    rw [signedText, length_append, length_append, hhex, hend]
  rw [AuditLine.signature, hlen, signedText, Nat.add_sub_cancel]
  rw [take_left' (by rw [length_append, hhex]; omega), drop_left]

variable (mac : Bytes → Bytes) (tag : Bytes) (ps : List Bytes)

theorem length_signedTexts : (signedTexts mac tag ps).length = ps.length := by
  induction ps generalizing tag with
  | nil => rfl
  | cons p ps ih => rw [signedTexts, length_cons, length_cons, ih]

theorem getLast?_signedTexts (hne : ps ≠ []) :
    ∃ p, (signedTexts mac tag ps).getLast? = some (signedText p (chainTag mac tag ps)) := by
  induction ps generalizing tag with
  | nil => exact absurd rfl hne
  | cons p ps ih =>
    cases ps with
    | nil => exact ⟨p, rfl⟩
    | cons q qs =>
      obtain ⟨r, hr⟩ := ih (mac (tag ++ p)) (by simp)
      exact ⟨r, hr⟩

variable {mac : Bytes → Bytes} {tag : Bytes}

theorem length_chainTag (hmac : ∀ x, (mac x).length = 32)
    (htag : tag.length = 32) (ps : List Bytes) : (chainTag mac tag ps).length = 32 := by
  induction ps generalizing tag with
  | nil => exact htag
  | cons p ps ih => exact ih (hmac _)

theorem lastSignature_signedTexts (hmac : ∀ x, (mac x).length = 32)
    (htag : tag.length = 32) {ps : List Bytes} (hne : ps ≠ []) :
    (signedTexts mac tag ps).getLast?.map AuditLine.signature =
      some ((chainTag mac tag ps).flatMap hexByte) := by
  obtain ⟨p, hp⟩ := getLast?_signedTexts mac tag ps hne
  rw [hp, Option.map_some, signature_signedText p (length_chainTag hmac htag ps)]

/-- **The audit chain.** Two sequences of audit events under the same secret, in which as many
lines are written and the last signatures are the same, write the same lines. -/
theorem audit_chain_commits {secret : Bytes} (hne : secret ≠ []) {a b : AuditLog}
    {es fs : List AuditEvent} (ha : a.secret = secret) (hb : b.secret = secret)
    (hta : a.hmacPrev.length = 32) (htb : b.hmacPrev.length = 32)
    (hes : ∀ e ∈ es, e.Keeps secret) (hfs : ∀ e ∈ fs, e.Keeps secret)
    (hlen : ∀ message, (hmac secret message).length = 32)
    (hinj : ∀ x ∈ auditMessages hmac a es, ∀ y ∈ auditMessages hmac b fs,
      hmac secret x = hmac secret y → x = y)
    (hcount : (auditRun hmac a es).length = (auditRun hmac b fs).length)
    (hlast : lastSignature (auditRun hmac a es) = lastSignature (auditRun hmac b fs)) :
    (auditRun hmac a es).map AuditLine.text = (auditRun hmac b fs).map AuditLine.text := by
  have hea := auditRun_eq hmac hne ha hes
  have heb := auditRun_eq hmac hne hb hfs
  have hlens : (auditPayloads hmac a es).length = (auditPayloads hmac b fs).length := by
    have h := congrArg List.length hea
    have h' := congrArg List.length heb
    rw [length_map, length_signedTexts] at h h'
    omega
  have htags : chainTag (hmac secret) a.hmacPrev (auditPayloads hmac a es) =
      chainTag (hmac secret) b.hmacPrev (auditPayloads hmac b fs) ∨
      auditPayloads hmac a es = [] := by
    by_cases hnil : auditPayloads hmac a es = []
    · exact .inr hnil
    · have hnil' : auditPayloads hmac b fs ≠ [] := fun h => by
        rw [h, length_nil] at hlens
        exact hnil (eq_nil_of_length_eq_zero hlens)
      rw [lastSignature, lastSignature, hea, heb, lastSignature_signedTexts hlen hta hnil,
        lastSignature_signedTexts hlen htb hnil'] at hlast
      exact .inl (flatMap_hexByte_injective (Option.some.inj hlast))
  rcases htags with htags | hnil
  · rw [auditMessages, auditMessages, ha, hb] at hinj
    obtain ⟨htag, hpayloads⟩ := chain_commits _ hlen hta htb hlens hinj htags
    rw [hea, heb, htag, hpayloads]
  · rw [hnil, length_nil] at hlens
    rw [hea, heb, hnil, eq_nil_of_length_eq_zero hlens.symm]
    rfl

end Last

/-- A log with a secret. -/
def signedLog : AuditLog := { AuditLog.initial with secret := lit "k" }

/-- A second context with the same secret. -/
def secondContext : AuditEvent :=
  .create { path := [], secret := lit "k", maxSizeMb := 0, rotateDaily := false } 0

/-- What an entry finds at a time, with the file open. -/
def chainMoment (timestampMs : UInt64) : AuditMoment where
  timestampMs := timestampMs
  durationMs := 2
  yday := 0
  fileSize := none
  openOk := true
  trace := lit "ok"

/-- A decision that allows, an admin entry and a decision that denies. -/
def threeEntries : List AuditEvent :=
  [.entry (chainMoment 1000) (.decision 1 true false),
    .entry (chainMoment 2000) (.admin
      { actorUserId := 1
        actorUsername := some (lit "ada")
        clientIp := none
        operation := some (lit "delete")
        resource := some (lit "user")
        resourceId := 2
        status := some (lit "ok")
        details := none } []),
    .entry (chainMoment 3000) (.decision 2 false true)]

/-- A tag that tells the messages below apart: a polynomial in their bytes. -/
def polynomialTag : Bytes → Bytes → Bytes := fun _ message =>
  List.replicate 31 0 ++ [message.foldl (fun acc b => 31 * acc + b) 1]

/-- Decisions and admin entries in one chain; a context created in between does not show. -/
theorem threeEntries_same_lines :
    (auditRun polynomialTag signedLog threeEntries).length = 3 ∧
    (auditMessages polynomialTag signedLog threeEntries).Nodup ∧
    (auditRun polynomialTag signedLog threeEntries).map AuditLine.text =
      (auditRun polynomialTag signedLog (secondContext :: threeEntries)).map AuditLine.text := by
  have hkept : ∀ e ∈ threeEntries, e.Keeps (lit "k") := by simp [threeEntries, AuditEvent.Keeps]
  have hsecond : strlcpy 128 (lit "k") = lit "k" := by decide
  refine ⟨by decide +kernel, by decide +kernel,
    audit_chain_commits (by decide) rfl rfl rfl rfl hkept (forall_mem_cons.mpr ⟨hsecond, hkept⟩)
      (fun _ => by simp [polynomialTag]) ?_ (by decide +kernel) (by decide +kernel)⟩
  decide +kernel

end SsoSystem
