/-
SsoSystem.Permission.RuleCacheTheorems — the cache of compiled rules against
the map it stands for.

The map keeps the rule last cached for an id until the id is invalidated. The
cache keeps it in one of 256 slots, found by linear probing, and deletes by
emptying the slot. An emptied slot cuts the probe chains that run through it:
an id behind it is stored a second time when it is cached again, and survives
its own invalidation.
-/
import Mathlib.Data.Finset.Card
import Mathlib.Data.Finset.Range
import SsoSystem.Lib.Run
import SsoSystem.Permission.EngineTheorems

namespace SsoSystem

open Run Function Engine

/-! ## §1 The calls and the map -/

/-- A call on the compiled rules. -/
inductive RuleCall where
  | cache (id : Nat) (compiled : Compiled)
  | lookup (id : Nat)
  | invalidate (id : Nat)
  | invalidateAll
  deriving DecidableEq, Repr

/-- The policy id a call is about. -/
def RuleCall.id? : RuleCall → Option Nat
  | .cache id _ => some id
  | .lookup id => some id
  | .invalidate id => some id
  | .invalidateAll => none

variable (r : RuleRun) (call : RuleCall)

/-- Policy ids are not 0. -/
def RuleCall.Nonzero : Prop := call.id? ≠ some 0

instance : Decidable call.Nonzero := inferInstanceAs (Decidable (_ ≠ _))

/-- What the calls mean: the rule last cached for each id, unless invalidated since. -/
abbrev RuleMap := Nat → Option Compiled

def RuleMap.step (latest : RuleMap) : RuleCall → RuleMap
  | .cache id compiled => Function.update latest id (some compiled)
  | .lookup _ => latest
  | .invalidate id => Function.update latest id none
  | .invalidateAll => fun _ => none

/-- What the calls do. -/
def Engine.ruleStep (eng : Engine) : RuleCall → Engine
  | .cache id compiled => eng.cacheRule id compiled
  | .lookup _ => eng
  | .invalidate id => eng.invalidatePolicy id
  | .invalidateAll => eng.invalidateAll

/-- The engine beside the map. -/
structure RuleRun where
  eng : Engine
  latest : RuleMap

def RuleRun.start : RuleRun where
  eng := permEngineCreate
  latest := fun _ => none

def RuleRun.step : Option RuleRun :=
  some { eng := r.eng.ruleStep call, latest := r.latest.step call }

/-- The slots that hold a rule. -/
def Engine.occupied (eng : Engine) : Finset Nat :=
  (Finset.range 256).filter fun i => (eng.cache i).policyId ≠ 0

/-- The cache as a map: one slot for an id, a count that is right, and lookups that find the
rule last cached or nothing. -/
structure RefinesMap (r : RuleRun) : Prop where
  unique : ∀ i ∈ r.eng.occupied, ∀ j ∈ r.eng.occupied,
    (r.eng.cache i).policyId = (r.eng.cache j).policyId → i = j
  count : r.eng.cacheCount = r.eng.occupied.card
  lookup : ∀ id, id ≠ 0 → r.eng.getCachedRule id = none ∨ r.eng.getCachedRule id = r.latest id

/-- Every slot that holds the id is the one where its probe ends. -/
def Engine.Reached (eng : Engine) (id : Nat) : Prop :=
  ∀ i ∈ eng.occupied, (eng.cache i).policyId = id → eng.findSlot id = some i

/-- A call about an id that its probe reaches; a present id is not cached anew into a full
table, where the call does nothing. -/
def OrderlyCall : RuleCall → Prop
  | .cache id compiled => r.eng.Reached id ∧ ∀ i ∈ r.eng.occupied, (r.eng.cache i).policyId = id →
      r.eng.cacheCount < 256 ∨ (r.eng.cache i).compiled = some compiled
  | .invalidate id => r.eng.Reached id
  | _ => True

instance (eng : Engine) (id : Nat) : Decidable (eng.Reached id) :=
  inferInstanceAs (Decidable (∀ i ∈ eng.occupied, _ → _))

instance : Decidable (OrderlyCall r call) := by
  cases call <;> dsimp only [OrderlyCall] <;> infer_instance

/-! ## §2 Probes and slots -/

variable {eng eng' : Engine} {i j id : Nat} {c : Compiled} {r r' : RuleRun} {slot : CacheSlot}

theorem mem_occupied : i ∈ eng.occupied ↔ i < 256 ∧ (eng.cache i).policyId ≠ 0 := by
  simp [occupied]

theorem probe_some {stop : CacheSlot → Bool} {cache : Nat → CacheSlot} {fuel idx : Nat}
    (hidx : idx < 256) (hp : Engine.probe stop cache fuel idx = some j) :
    j < 256 ∧ stop (cache j) = true := by
  induction fuel generalizing idx with
  | zero => cases hp
  | succ fuel ih =>
    rw [probe] at hp
    split at hp
    · next hstop =>
      cases hp
      exact ⟨hidx, hstop⟩
    · exact ih (Nat.mod_lt _ (by decide)) hp

theorem findSlot_some (hf : eng.findSlot id = some j) :
    j < 256 ∧ ((eng.cache j).policyId = id ∨ (eng.cache j).policyId = 0) := by
  obtain ⟨hj, hstop⟩ := probe_some (Nat.mod_lt _ (by decide)) hf
  refine ⟨hj, ?_⟩
  simpa using hstop

theorem Engine.Reached.absent (hr : eng.Reached id) (hf : eng.findSlot id = some j)
    (hempty : (eng.cache j).policyId = 0) (hi : i ∈ eng.occupied) :
    (eng.cache i).policyId ≠ id := by
  intro hid
  have hij : some j = some i := hf.symm.trans (hr i hi hid)
  cases hij
  exact (mem_occupied.mp hi).2 hempty

theorem Engine.Reached.eq_slot (hr : eng.Reached id) (hf : eng.findSlot id = some j)
    (hi : i ∈ eng.occupied) (hid : (eng.cache i).policyId = id) : i = j := by
  have hij : some j = some i := hf.symm.trans (hr i hi hid)
  cases hij
  rfl

theorem getCachedRule_slot (hid : id ≠ 0) (hg : eng.getCachedRule id = some c) :
    ∃ i ∈ eng.occupied, (eng.cache i).policyId = id ∧ (eng.cache i).compiled = some c := by
  obtain ⟨j, hf, hown, hc⟩ := getCachedRule_eq_some hg
  exact ⟨j, mem_occupied.mpr ⟨(findSlot_some hf).1, hown ▸ hid⟩, hown, hc⟩

/-! ## §3 The invariant -/

/-- One slot for an id, the right count, and in every slot the rule last cached for its id. -/
structure RuleCacheInv (r : RuleRun) : Prop where
  unique : ∀ i ∈ r.eng.occupied, ∀ j ∈ r.eng.occupied,
    (r.eng.cache i).policyId = (r.eng.cache j).policyId → i = j
  count : r.eng.cacheCount = r.eng.occupied.card
  content : ∀ i ∈ r.eng.occupied, (r.eng.cache i).compiled = r.latest (r.eng.cache i).policyId

theorem ruleCacheInv_start : RuleCacheInv .start where
  unique i hi := absurd rfl (mem_occupied.mp hi).2
  count := by
    have hnone : permEngineCreate.occupied = ∅ :=
      Finset.filter_eq_empty_iff.mpr fun _ _ hne => hne rfl
    show permEngineCreate.cacheCount = permEngineCreate.occupied.card
    rw [hnone]
    rfl
  content i hi := absurd rfl (mem_occupied.mp hi).2

theorem RuleCacheInv.refinesMap (hinv : RuleCacheInv r) : RefinesMap r where
  __ := hinv
  lookup id hid := by
    cases hg : r.eng.getCachedRule id with
    | none => exact .inl rfl
    | some c =>
      obtain ⟨i, hi, hown, hc⟩ := getCachedRule_slot hid hg
      right
      rw [← hc, hinv.content i hi, hown]

theorem mem_occupied_update (hcache : eng'.cache = Function.update eng.cache j slot)
    (hi : i ∈ eng'.occupied) :
    (i = j ∧ eng'.cache i = slot) ∨ (i ≠ j ∧ i ∈ eng.occupied ∧ eng'.cache i = eng.cache i) := by
  by_cases hij : i = j
  · subst hij
    exact .inl ⟨rfl, by rw [hcache, update_self]⟩
  · have hsame : eng'.cache i = eng.cache i := by rw [hcache, update_of_ne hij]
    have hmem := mem_occupied.mp hi
    rw [hsame] at hmem
    exact .inr ⟨hij, mem_occupied.mpr hmem, hsame⟩

theorem occupied_store (hj : j < 256) (hslot : slot.policyId ≠ 0)
    (hcache : eng'.cache = Function.update eng.cache j slot) :
    eng'.occupied = insert j eng.occupied := by
  ext i
  by_cases hij : i = j
  · subst hij
    simp [mem_occupied, hcache, hj, hslot]
  · simp [mem_occupied, hcache, hij]

theorem occupied_empty (hslot : slot.policyId = 0)
    (hcache : eng'.cache = Function.update eng.cache j slot) :
    eng'.occupied = eng.occupied.erase j := by
  ext i
  by_cases hij : i = j
  · subst hij
    simp [mem_occupied, hcache, hslot]
  · simp [mem_occupied, hcache, hij]

/-! ## §4 One call -/

/-- A call that leaves the table leaves the invariant, if the map agrees on what is there. -/
theorem RuleCacheInv.congr (hinv : RuleCacheInv r) (hcache : r'.eng.cache = r.eng.cache)
    (hcount : r'.eng.cacheCount = r.eng.cacheCount)
    (hlatest : ∀ i ∈ r.eng.occupied, r'.latest (r.eng.cache i).policyId = (r.eng.cache i).compiled)
      :
    RuleCacheInv r' := by
  have hocc : r'.eng.occupied = r.eng.occupied := by
    unfold occupied
    rw [hcache]
  refine ⟨?_, ?_, ?_⟩
  · rw [hocc, hcache]
    exact hinv.unique
  · rw [hocc, hcount]
    exact hinv.count
  · rw [hocc, hcache]
    exact fun i hi => (hlatest i hi).symm

theorem RuleCacheInv.store (hinv : RuleCacheInv r) (hid : id ≠ 0) (hreach : r.eng.Reached id)
    (hf : r.eng.findSlot id = some j)
    (hcache : r'.eng.cache = Function.update r.eng.cache j { policyId := id, compiled := some c })
    (hcount : r'.eng.cacheCount = if (r.eng.cache j).policyId = 0 then r.eng.cacheCount +
      1 else r.eng.cacheCount)
    (hlatest : r'.latest = Function.update r.latest id (some c)) : RuleCacheInv r' := by
  obtain ⟨hj, hend⟩ := findSlot_some hf
  -- the id is in no other slot: the probe would have reached it
  have hother : ∀ i ∈ r.eng.occupied, i ≠ j → (r.eng.cache i).policyId ≠ id :=
    fun i hi hij hown => hij (hreach.eq_slot hf hi hown)
  refine ⟨?_, ?_, ?_⟩
  · intro i hi k hk hik
    rcases mem_occupied_update hcache hi with ⟨hij, hslot⟩ | ⟨hij, hi', hslot⟩ <;>
      rcases mem_occupied_update hcache hk with ⟨hkj, hslot'⟩ | ⟨hkj, hk', hslot'⟩
    · exact hij.trans hkj.symm
    · rw [hslot, hslot'] at hik
      exact absurd hik.symm (hother k hk' hkj)
    · rw [hslot, hslot'] at hik
      exact absurd hik (hother i hi' hij)
    · rw [hslot, hslot'] at hik
      exact hinv.unique i hi' k hk' hik
  · rw [occupied_store hj (by exact hid) hcache, hcount, hinv.count]
    split
    · next hempty =>
      rw [Finset.card_insert_of_notMem]
      exact fun hmem => (mem_occupied.mp hmem).2 hempty
    · next hown => rw [Finset.insert_eq_of_mem (mem_occupied.mpr ⟨hj, hown⟩)]
  · intro i hi
    rcases mem_occupied_update hcache hi with ⟨rfl, hslot⟩ | ⟨hij, hi, hslot⟩
    · rw [hslot, hlatest, update_self]
    · rw [hslot, hlatest, update_of_ne (hother i hi hij), hinv.content i hi]

theorem RuleCacheInv.cache (hinv : RuleCacheInv r) (hid : id ≠ 0)
    (hcall : OrderlyCall r (.cache id c)) :
    RuleCacheInv ⟨r.eng.cacheRule id c, Function.update r.latest id (some c)⟩ := by
  obtain ⟨hreach, hfull⟩ := hcall
  -- the map changes at the id only, which a table that stays as it is does not hold
  have hkeep : r.eng.cacheRule id c = r.eng →
      (∀ i ∈ r.eng.occupied, (r.eng.cache i).policyId = id → (r.eng.cache i).compiled = some c) →
      RuleCacheInv ⟨r.eng.cacheRule id c, update r.latest id (some c)⟩ := by
    intro heq hown
    rw [heq]
    refine hinv.congr rfl rfl fun i hi => ?_
    show update r.latest id (some c) (r.eng.cache i).policyId = _
    by_cases hi' : (r.eng.cache i).policyId = id
    · rw [hown i hi hi', hi', update_self]
    · rw [update_of_ne hi', hinv.content i hi]
  by_cases hroom : 256 ≤ r.eng.cacheCount
  · refine hkeep (if_pos hroom) fun i hi hown => ?_
    exact (hfull i hi hown).resolve_left (Nat.not_lt.mpr hroom)
  · cases hf : r.eng.findSlot id with
    | none =>
      refine hkeep ?_ fun i hi hown => ?_
      · simp only [cacheRule, hf, ite_self]
      · exact absurd (hf.symm.trans (hreach i hi hown)) (by simp)
    | some j =>
      have heq : r.eng.cacheRule id c = { r.eng with
          cache := update r.eng.cache j { policyId := id, compiled := some c }
          cacheCount :=
            if (r.eng.cache j).policyId = 0 then r.eng.cacheCount + 1 else r.eng.cacheCount } := by
        simp only [cacheRule, hf, if_neg hroom]
      rw [heq]
      exact hinv.store hid hreach hf rfl rfl rfl

theorem RuleCacheInv.invalidate (hinv : RuleCacheInv r) (hid : id ≠ 0) (hreach : r.eng.Reached id) :
    RuleCacheInv ⟨r.eng.invalidatePolicy id, Function.update r.latest id none⟩ := by
  -- a table without the id stays as it is
  have hkeep : r.eng.dropRule id = r.eng →
      (∀ i ∈ r.eng.occupied, (r.eng.cache i).policyId ≠ id) →
      RuleCacheInv ⟨r.eng.invalidatePolicy id, update r.latest id none⟩ := by
    intro heq hother
    unfold invalidatePolicy
    rw [heq]
    refine hinv.congr rfl rfl fun i hi => ?_
    show update r.latest id none (r.eng.cache i).policyId = _
    rw [update_of_ne (hother i hi), hinv.content i hi]
  cases hf : r.eng.findSlot id with
  | none =>
    refine hkeep ?_ fun i hi hown => ?_
    · simp only [dropRule, hf]
    · exact absurd (hf.symm.trans (hreach i hi hown)) (by simp)
  | some j =>
    obtain ⟨hj, hend⟩ := findSlot_some hf
    by_cases hown : (r.eng.cache j).policyId = id
    · have heq : r.eng.dropRule id = { r.eng with
          cache := update r.eng.cache j { r.eng.cache j with policyId := 0 }
          cacheCount := r.eng.cacheCount - 1 } := by
        simp only [dropRule, hf, if_pos hown]
      have hmem : j ∈ r.eng.occupied := mem_occupied.mpr ⟨hj, hown ▸ hid⟩
      have hcache : (r.eng.invalidatePolicy id).cache =
          update r.eng.cache j { r.eng.cache j with policyId := 0 } := by
        unfold invalidatePolicy
        rw [heq]
        rfl
      refine ⟨?_, ?_, ?_⟩
      · intro i hi k hk hik
        rcases mem_occupied_update hcache hi with ⟨-, hslot⟩ | ⟨-, hi', hslot⟩
        · exact absurd (by rw [hslot]) (mem_occupied.mp hi).2
        rcases mem_occupied_update hcache hk with ⟨-, hslot'⟩ | ⟨-, hk', hslot'⟩
        · exact absurd (by rw [hslot']) (mem_occupied.mp hk).2
        · exact hinv.unique i hi' k hk' (by rwa [hslot, hslot'] at hik)
      · show (r.eng.invalidatePolicy id).cacheCount = (r.eng.invalidatePolicy id).occupied.card
        rw [occupied_empty rfl hcache, Finset.card_erase_of_mem hmem, ← hinv.count]
        unfold invalidatePolicy
        rw [heq]
        rfl
      · intro i hi
        rcases mem_occupied_update hcache hi with ⟨-, hslot⟩ | ⟨hij, hi', hslot⟩
        · exact absurd (by rw [hslot]) (mem_occupied.mp hi).2
        · have hne : (r.eng.cache i).policyId ≠ id := fun h => hij (hreach.eq_slot hf hi' h)
          show ((r.eng.invalidatePolicy id).cache i).compiled =
            update r.latest id none ((r.eng.invalidatePolicy id).cache i).policyId
          rw [hslot, update_of_ne hne, hinv.content i hi']
    · have hempty := hend.resolve_left hown
      refine hkeep ?_ fun i hi => hreach.absent hf hempty hi
      simp only [dropRule, hf, if_neg hown]

theorem RuleCacheInv.invalidateAll : RuleCacheInv ⟨r.eng.invalidateAll, fun _ => none⟩ where
  unique i hi := absurd rfl (mem_occupied.mp hi).2
  count := by
    have hnone : r.eng.invalidateAll.occupied = ∅ :=
      Finset.filter_eq_empty_iff.mpr fun _ _ hne => hne rfl
    show r.eng.invalidateAll.cacheCount = r.eng.invalidateAll.occupied.card
    rw [hnone]
    rfl
  content i hi := absurd rfl (mem_occupied.mp hi).2

theorem RuleCacheInv.step {call : RuleCall} (hinv : RuleCacheInv r) (hid : call.Nonzero)
    (hcall : OrderlyCall r call) (hstep : r.step call = some r') : RuleCacheInv r' := by
  cases hstep
  cases call with
  | cache id c => exact hinv.cache (fun h => hid (congrArg some h)) hcall
  | lookup id => exact hinv
  | invalidate id => exact hinv.invalidate (fun h => hid (congrArg some h)) hcall
  | invalidateAll => exact .invalidateAll

/-! ## §5 Runs -/

/-- In every run of such calls the cache refines the map. -/
theorem refinesMap_of_orderly {calls : List RuleCall} {r : RuleRun}
    (hids : ∀ call ∈ calls, call.Nonzero) (hcalls : Along RuleRun.step OrderlyCall calls .start)
    (hrun : run RuleRun.step calls .start = some r) : RefinesMap r := by
  have hcond : Along RuleRun.step (fun r call => call.Nonzero ∧ OrderlyCall r call) calls .start :=
    (along_of_forall hids RuleRun.start).and hcalls
  have hinv : RuleCacheInv r :=
    invariant_of_run (fun r call r' hinv hcall hstep => hinv.step hcall.1 hcall.2 hstep)
      ruleCacheInv_start hcond hrun
  exact hinv.refinesMap

/-- A rule that allows one function. -/
def sampleRule (code : String) : Compiled := .func [{ code := CMem.lit code, isAllow := true }]

/-- Two ids with one home slot; the second one, behind the first, comes and goes. -/
def neighbourCalls : List RuleCall :=
  [.cache 1 (sampleRule "a"), .cache 257 (sampleRule "b"), .lookup 257, .invalidate 257,
    .cache 257 (sampleRule "c")]

theorem neighbourCalls_refine :
    ∃ r, run RuleRun.step neighbourCalls .start = some r ∧ RefinesMap r := by
  obtain ⟨r, hrun⟩ : ∃ r, run RuleRun.step neighbourCalls .start = some r := ⟨_, rfl⟩
  refine ⟨r, hrun, refinesMap_of_orderly ?_ ?_ hrun⟩
  · decide
  · decide +kernel

/-- The first one goes, and the second one is cached again and invalidated. -/
def brokenChainCalls : List RuleCall :=
  [.cache 1 (sampleRule "a"), .cache 257 (sampleRule "b"), .invalidate 1,
    .cache 257 (sampleRule "c"), .invalidate 257, .cache 1 (sampleRule "a")]

/-- The rule that was cached for 257 before its last invalidation is found again. -/
theorem brokenChainCalls_stale : (∀ call ∈ brokenChainCalls, call.Nonzero) ∧
    ∃ r, run RuleRun.step brokenChainCalls .start = some r ∧ ¬ RefinesMap r := by
  refine ⟨by decide,
    exists_some_of_any (P := fun r => r.eng.getCachedRule 257 = some (sampleRule "b") ∧
    r.latest 257 = none) (by decide +kernel) ?_⟩
  rintro r - ⟨hfound, hlatest⟩ href
  have hlookup := href.lookup 257 (by decide)
  rw [hfound, hlatest] at hlookup
  simp at hlookup

end SsoSystem
