/-
SsoSystem.Permission.ResultCacheTheorems — when the decision cache answers
one request with the decision of another.

A level 2 entry is found under the user and `hash_params`, a 32-bit hash of
the bytes of the parameter union. The environment is not among these bytes,
and of a data record only its address is. Two requests of a user that share
the hash share the entry.
-/
import SsoSystem.Permission.ResolveTheorems

namespace SsoSystem

open CMem DenyOverride List Option Function

/-! ## §1 What an evaluation leaves in the decision cache -/

theorem lookupL2_writeL2_self (eng : Engine) (uid : Nat) (ph : UInt32) (now : UInt64)
    (allowed : Bool) : (eng.writeL2 uid ph now allowed).lookupL2 uid ph now = some allowed := by
  simp [Engine.writeL2, Engine.lookupL2]

variable {eng : Engine} {V : Vendor} {b : Bool} {ctx : EvalContext} {h : Heap}
  {out : Bool × EvalContext × Engine} {s : Store}

theorem eq_of_lookupL2_writeL2 (hempty : ∀ i, (eng.resultCache i).valid = false)
    {uid uid' : Nat} {ph ph' : UInt32} {now now' : UInt64} {allowed b : Bool}
    (hl : (eng.writeL2 uid ph now allowed).lookupL2 uid' ph' now' = some b) :
    ph' = ph ∧ b = allowed := by
  unfold Engine.lookupL2 Engine.writeL2 at hl
  by_cases hi : ph'.toNat % 1024 = ph.toNat % 1024
  · rw [hi] at hl
    simp only [update_self, ite_none_right_eq_some, some.injEq] at hl
    exact ⟨hl.1.2.2.1.symm, hl.2.symm⟩
  · simp [update_of_ne hi, hempty] at hl

/-- A decision found after the first evaluation of a fresh engine is the
decision of that evaluation, under its hash. -/
theorem eq_of_lookupL2_evaluate {now now' : UInt64} {uid : Nat} {ph : UInt32}
    (he : evaluateInternal V h s permEngineCreate now ctx = some out)
    (hl : out.2.2.lookupL2 uid ph now' = some b) : ph = hashParams ctx ∧ b = out.1 := by
  rw [evaluateInternal_permEngineCreate] at he
  unfold decideOn at he
  split at he
  · cases he
    simp [Engine.lookupL2, permEngineCreate] at hl
  · obtain ⟨⟨allowed, ctx', eng'⟩, hloop, rfl⟩ := map_eq_some_iff.mp he
    refine eq_of_lookupL2_writeL2 ?_ hl
    intro i
    rw [(sameResults_evalLoop hloop).resultCache]
    rfl

theorem lookupL2_of_evaluate {now : UInt64} (hne : eng.policiesFor s ctx.userId now ≠ [])
    (he : evaluateInternal V h s eng now ctx = some out) :
    out.2.2.lookupL2 ctx.userId (hashParams ctx) now = some out.1 := by
  rcases evaluateInternal_cases he with ⟨hlook, hout⟩ | ⟨eng', -, hd⟩
  · rw [hout]
    exact hlook
  · unfold decideOn at hd
    rw [if_neg hne] at hd
    obtain ⟨⟨allowed, ctx', eng''⟩, -, rfl⟩ := map_eq_some_iff.mp hd
    exact lookupL2_writeL2_self ..

/-! ## §2 Transparency -/

section TwoRequests

variable (V : Vendor) (h₁ : Heap) (ctx₁ : EvalContext) (h₂ : Heap) (ctx₂ : EvalContext)

/-- After the first request, whatever the cache answers to the second is what
a fresh engine decides on the second, in every store. -/
def L2Transparent : Prop :=
  ∀ (s : Store) (now₁ now₂ : UInt64) (out : Bool × EvalContext × Engine) (b : Bool),
    s.PolicyIdsNonzero → evaluateInternal V h₁ s permEngineCreate now₁ ctx₁ = some out →
    out.2.2.lookupL2 ctx₂.userId (hashParams ctx₂) now₂ = some b →
    freshDecision V h₂ s now₂ ctx₂ = some b

/-- No policy tells the two requests apart: one that returns on the first
gives the second the same vote. -/
def Indistinguishable : Prop :=
  ∀ (s : Store) (p : Policy), vote V h₁ s ctx₁ p = .stuck ∨ vote V h₁ s ctx₁ p = vote V h₂ s ctx₂ p

end TwoRequests

variable {V : Vendor} {h₁ : Heap} {ctx₁ : EvalContext} {h₂ : Heap} {ctx₂ : EvalContext}

theorem l2Transparent_of_hash_ne (hhash : hashParams ctx₁ ≠ hashParams ctx₂) :
    L2Transparent V h₁ ctx₁ h₂ ctx₂ := by
  intro s now₁ now₂ out b _ he hl
  exact absurd (eq_of_lookupL2_evaluate he hl).1.symm hhash

theorem l2Transparent_of_indistinguishable (huser : ctx₁.userId = ctx₂.userId)
    (hind : Indistinguishable V h₁ ctx₁ h₂ ctx₂) : L2Transparent V h₁ ctx₁ h₂ ctx₂ := by
  intro s now₁ now₂ out b hids he hl
  obtain ⟨-, rfl⟩ := eq_of_lookupL2_evaluate he hl
  have hfirst := freshDecision_eq_combine (h := h₁) (V := V) hids now₁ ctx₁
  rw [freshDecision, he, map_some] at hfirst
  rw [freshDecision_eq_combine hids, ← huser]
  refine combine_eq_of_agree ?_ hfirst.symm
  rw [forall₂_map_left_iff, forall₂_map_right_iff]
  exact forall₂_same.mpr fun p _ => hind s p

/-- Two different decisions on one store give a request the wrong answer. -/
theorem not_l2Transparent_of_decisions (huser : ctx₁.userId = ctx₂.userId)
    (hhash : hashParams ctx₁ = hashParams ctx₂) (hids : s.PolicyIdsNonzero)
    (hne : policyResolveForUser s ctx₁.userId 64 ≠ [])
    (h1 : freshDecision V h₁ s 0 ctx₁ = some b) (h2 : freshDecision V h₂ s 0 ctx₂ ≠ some b) :
    ¬ L2Transparent V h₁ ctx₁ h₂ ctx₂ := by
  intro htrans
  obtain ⟨out, he, rfl⟩ := map_eq_some_iff.mp h1
  refine h2 (htrans s 0 0 out _ hids he ?_)
  rw [← huser, ← hhash]
  refine lookupL2_of_evaluate ?_ he
  rw [(decidesOnStore_permEngineCreate V hids 0 ctx₁).list]
  exact hne

theorem combine_beside_allow {v : Vote} {vs : List Vote} (hv : v ≠ .stuck)
    (hp : vs.Perm [v, .allow]) : combine vs false = some (decide (v ≠ .deny)) := by
  have hstuck : Vote.stuck ∉ vs := by
    rw [hp.mem_iff]
    simpa using Ne.symm hv
  rw [combine_of_no_stuck hstuck]
  simp [hp.mem_iff, eq_comm]

/-- Two votes that differ, the first of which comes back: asked alone they
combine differently, or they are a skip and a deny. -/
theorem combine_single_ne_or {v w : Vote} (hv : v ≠ .stuck) (hne : v ≠ w) :
    (∃ b, combine [v] false = some b ∧ combine [w] false ≠ some b) ∨
      (w ≠ .stuck ∧ decide (v ≠ .deny) ≠ decide (w ≠ .deny)) := by
  cases v with
  | stuck => exact absurd rfl hv
  | _ => cases w <;> simp [combine] at hne ⊢

/-- A policy that tells the requests apart is the only one of a store, or the
only one beside one that allows everything; there the cache answers wrongly. -/
theorem not_l2Transparent_of_distinguished (hread : ReadsMatchAll V)
    (huser : ctx₁.userId = ctx₂.userId) (hhash : hashParams ctx₁ = hashParams ctx₂)
    {p : Policy} (hret : vote V h₁ s ctx₁ p ≠ .stuck)
    (hne : vote V h₁ s ctx₁ p ≠ vote V h₂ s ctx₂ p) : ¬ L2Transparent V h₁ ctx₁ h₂ ctx₂ := by
  have hp₁ : vote V h₁ s ctx₁ { p with id := 1 } = vote V h₁ s ctx₁ p := rfl
  have hp₂ : vote V h₂ s ctx₂ { p with id := 1 } = vote V h₂ s ctx₂ p := rfl
  rcases combine_single_ne_or hret hne with ⟨b, hb₁, hb₂⟩ | ⟨hret₂, hdeny⟩
  · let ps : List Policy := [{ p with id := 1 }]
    have hids : (s.withOwnPolicies ctx₁.userId ps).PolicyIdsNonzero := by
      intro q hq
      obtain rfl : q = { p with id := 1 } := by simpa [ps, Store.withOwnPolicies] using hq
      simp
    have hres : policyResolveForUser (s.withOwnPolicies ctx₁.userId ps) ctx₁.userId 64 = ps :=
      perm_singleton.mp (resolve_withOwnPolicies_perm (by simp [ps]) (by simp [ps]))
    refine not_l2Transparent_of_decisions huser hhash hids (by simp [hres, ps]) (b := b) ?_ ?_
    · rw [freshDecision_eq_combine hids, hres, vote_withOwnPolicies]
      exact hb₁
    · rw [freshDecision_eq_combine hids, ← huser, hres, vote_withOwnPolicies]
      exact hb₂
  · let ps : List Policy := [{ p with id := 1 }, { matchAllPolicy with id := 2 }]
    have hids : (s.withOwnPolicies ctx₁.userId ps).PolicyIdsNonzero := by
      intro q hq
      obtain rfl | rfl : q = { p with id := 1 } ∨ q = { matchAllPolicy with id := 2 } := by
        simpa [ps, Store.withOwnPolicies] using hq
      · simp
      · simp
    have hres : (policyResolveForUser (s.withOwnPolicies ctx₁.userId ps) ctx₁.userId 64).Perm ps :=
      resolve_withOwnPolicies_perm (by simp [ps]) (by simp [ps])
    have hvotes₁ := hres.map (vote V h₁ s ctx₁)
    have hvotes₂ := hres.map (vote V h₂ s ctx₂)
    simp only [ps, map_cons, map_nil, vote_matchAll hread, hp₁, hp₂] at hvotes₁ hvotes₂
    have hnil : policyResolveForUser (s.withOwnPolicies ctx₁.userId ps) ctx₁.userId 64 ≠ [] := by
      intro hnil
      rw [hnil] at hres
      exact absurd hres.nil_eq (by simp [ps])
    refine not_l2Transparent_of_decisions huser hhash hids hnil ?_ ?_
      (b := decide (vote V h₁ s ctx₁ p ≠ .deny))
    · rw [freshDecision_eq_combine hids, vote_withOwnPolicies, combine_beside_allow hret hvotes₁]
    · rw [freshDecision_eq_combine hids, ← huser, vote_withOwnPolicies,
        combine_beside_allow hret₂ hvotes₂]
      exact fun he => hdeny (some.inj he).symm

/-- The decision cache is transparent for two requests of a user exactly when
their hashes differ or no policy tells them apart. -/
theorem l2Transparent_iff (hread : ReadsMatchAll V) (huser : ctx₁.userId = ctx₂.userId) :
    L2Transparent V h₁ ctx₁ h₂ ctx₂ ↔
      hashParams ctx₁ ≠ hashParams ctx₂ ∨ Indistinguishable V h₁ ctx₁ h₂ ctx₂ := by
  constructor
  · intro htrans
    by_cases hhash : hashParams ctx₁ = hashParams ctx₂
    · right
      intro s p
      by_contra hboth
      rw [not_or] at hboth
      exact not_l2Transparent_of_distinguished hread huser hhash hboth.1 hboth.2 htrans
    · exact .inl hhash
  · rintro (hhash | hind)
    · exact l2Transparent_of_hash_ne hhash
    · exact l2Transparent_of_indistinguishable huser hind

/-! ### Same content -/

/-- Requests with the same bytes, the same environment and the same record
text are not told apart, wherever the record is stored. -/
theorem indistinguishable_of_sameView (hv : SameView ctx₁ ctx₂)
    (hread : h₁.readStr ctx₁.record = h₂.readStr ctx₁.record) :
    Indistinguishable V h₁ ctx₁ h₂ ctx₂ := by
  intro s p
  right
  rw [← vote_congr hv, vote_heap_congr hread]

/-! ### One hash, two requests -/

theorem hashParams_congr (hp : ctx₁.params = ctx₂.params) : hashParams ctx₁ = hashParams ctx₂ := by
  unfold hashParams
  rw [hp]

def zoneRules : Bytes := lit
  "\x7b\"conditions\":[\x7b\"attr\":\"zone\",\"source\":\"environment\",\"value\":\"hq\"\x7d]\x7d"

def ownerRules : Bytes := lit
  "\x7b\"resource_type\":\"doc\",\"conditions\":[\x7b\"field\":\"owner\",\"op\":\"eq\",\"value\":\"alice\"\x7d]\x7d"

def hqZone : Bytes := lit "\x7b\"zone\":\"hq\"\x7d"
def labZone : Bytes := lit "\x7b\"zone\":\"lab\"\x7d"
def aliceRecord : Bytes := lit "\x7b\"owner\":\"alice\"\x7d"
def bobRecord : Bytes := lit "\x7b\"owner\":\"bob\"\x7d"

def contentVendor : Vendor := .ofTable
  [(matchAllRules, .obj [(lit "conditions", .arr [])]),
    (zoneRules, .obj [(lit "conditions", .arr [.obj [(lit "attr", .str (lit "zone")),
      (lit "source", .str (lit "environment")), (lit "value", .str (lit "hq"))]])]),
    (ownerRules, .obj [(lit "resource_type", .str (lit "doc")),
      (lit "conditions", .arr [.obj [(lit "field", .str (lit "owner")),
        (lit "op", .str (lit "eq")), (lit "value", .str (lit "alice"))]])]),
    (hqZone, .obj [(lit "zone", .str (lit "hq"))]),
    (labZone, .obj [(lit "zone", .str (lit "lab"))]),
    (aliceRecord, .obj [(lit "owner", .str (lit "alice"))]),
    (bobRecord, .obj [(lit "owner", .str (lit "bob"))])]

/-- Allows requests from one zone. -/
def zonePolicy : Policy := { matchAllPolicy with rules := zoneRules }

/-- Allows the documents of one owner. -/
def ownerPolicy : Policy := { matchAllPolicy with strategyType := .data, rules := ownerRules }

/-- An attribute request with environment attributes. -/
def zoneContext (environment : Bytes) : EvalContext :=
  { (CheckRequest.abac none none none).context sampleUser with environment }

/-- `perm_check_data(ctx, 1, "doc", record, ...)` with the copy at a fixed address. -/
def recordRequest (record : Bytes) : CheckRequest :=
  .data (lit "doc") (some (record, .secondPage))

def recordContext (record : Bytes) : EvalContext := (recordRequest record).context sampleUser

/-- Two requests that differ in the environment only share a decision; so do
two records of one length when the allocator hands out the same address. -/
theorem requests_share_decision :
    ¬ L2Transparent contentVendor emptyHeap (zoneContext hqZone) emptyHeap (zoneContext labZone) ∧
    ¬ L2Transparent contentVendor ((recordRequest aliceRecord).heap emptyHeap)
      (recordContext aliceRecord) ((recordRequest (bobRecord ++ lit "  ")).heap emptyHeap)
      (recordContext (bobRecord ++ lit "  ")) := by
  constructor
  · exact not_l2Transparent_of_distinguished rfl rfl (hashParams_congr rfl) (s := memOpen)
      (p := zonePolicy) (by decide) (by decide)
  · refine not_l2Transparent_of_distinguished rfl rfl (hashParams_congr ?_) (s := memOpen)
      (p := ownerPolicy) (by decide) (by decide)
    rfl

/-- The same request again is answered as a fresh engine would. -/
theorem zoneContext_transparent :
    L2Transparent contentVendor emptyHeap (zoneContext hqZone) emptyHeap (zoneContext hqZone) :=
  (l2Transparent_iff (show ReadsMatchAll contentVendor from rfl) rfl).mpr
    (.inr (indistinguishable_of_sameView (.refl _) rfl))

end SsoSystem
