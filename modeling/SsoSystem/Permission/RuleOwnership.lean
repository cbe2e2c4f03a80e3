/-
SsoSystem.Permission.RuleOwnership — who frees the compiled rules.

A compiled rule is allocated by `compile_rules` and freed by an invalidation
of the slot that holds it. `RuleHeap` puts the pointers beside the engine: which
rule each slot points to (also after the slot was emptied, since the source
leaves the pointer there), which were freed, and whether a freed one was used.
-/
import SsoSystem.Permission.RuleCacheTheorems

namespace SsoSystem

open Run List Option Function Nat Engine

/-! ## §1 The calls -/

/-- A call on the engine that can compile, use or free rules. -/
inductive EngineCall where
  | evaluate (p : Policy)
  | invalidatePolicy (id : Nat)
  | invalidateUser (uid : Nat)
  | invalidateAll

/-- The engine and the compiled rules, which are named by the order of their allocation. -/
structure RuleHeap where
  eng : Engine
  ptr : Nat → Option Nat
  allocated : Nat
  freed : List Nat
  staleUse : Bool

namespace RuleHeap

def start : RuleHeap where
  eng := permEngineCreate
  ptr := fun _ => none
  allocated := 0
  freed := []
  staleUse := false

variable (V : Vendor) (r : RuleHeap)

/-- `strategy->evaluate` reads the rule. -/
def use (rule : Option Nat) : RuleHeap :=
  { r with staleUse := r.staleUse || rule.any fun n => r.freed.contains n }

/-- The pointer `perm_engine_get_cached_rule` returns. -/
def cachedPtr (id : Nat) : Option Nat :=
  if r.eng.cacheCount = 0 then none
  else
    match r.eng.findSlot id with
    | none => none
    | some idx => if (r.eng.cache idx).policyId = id then r.ptr idx else none

/-- Where `perm_engine_cache_rule` puts the pointer, if anywhere. -/
def storePtr (id rule : Nat) : Nat → Option Nat :=
  if 256 ≤ r.eng.cacheCount then r.ptr
  else
    match r.eng.findSlot id with
    | none => r.ptr
    | some idx => Function.update r.ptr idx (some rule)

/-- A rule just compiled, cached and used. -/
def compile (id : Nat) (c : Compiled) : RuleHeap :=
  use { r with
    eng := r.eng.cacheRule id c
    ptr := r.storePtr id r.allocated
    allocated := r.allocated + 1 } (some r.allocated)

/-- `perm_engine_evaluate_policy`. -/
def evaluate (p : Policy) : RuleHeap :=
  if p.status = .disabled then r
  else if !p.strategyType.registered then r
  else
    match r.eng.getCachedRule p.id with
    | some _ => r.use (r.cachedPtr p.id)
    | none =>
      match compileRules V p.strategyType p.rules with
      | none => r
      | some c => r.compile p.id c

/-- The rules an invalidation of one policy frees. -/
def droppedPtr (id : Nat) : Option Nat :=
  match r.eng.findSlot id with
  | none => none
  | some idx => if (r.eng.cache idx).policyId = id then r.ptr idx else none

def step : EngineCall → Option RuleHeap
  | .evaluate p => some (r.evaluate V p)
  | .invalidatePolicy id =>
    some { r with
      eng := r.eng.invalidatePolicy id
      freed := r.freed ++ (r.droppedPtr id).toList }
  | .invalidateUser uid => some { r with eng := r.eng.invalidateUser uid }
  | .invalidateAll =>
    some { r with
      eng := r.eng.invalidateAll
      freed := r.freed ++ ((List.range 256).filter fun i =>
        (r.eng.cache i).policyId != 0).filterMap r.ptr }

end RuleHeap

/-- What holds at the end of each call. -/
structure RulesOwned (r : RuleHeap) : Prop where
  held : ∀ n < r.allocated, n ∉ r.freed → ∃! i, i ∈ r.eng.occupied ∧ r.ptr i = some n
  bounded : ((Finset.range r.allocated).filter fun n => n ∉ r.freed).card ≤ 256
  freedOnce : r.freed.Nodup
  noStaleUse : r.staleUse = false

/-- Ids are not 0, which marks an empty slot, and no rule is compiled while all slots are
taken. -/
def RoomyCall (V : Vendor) (r : RuleHeap) : EngineCall → Prop
  | .evaluate p => p.id ≠ 0 ∧ (r.eng.cacheCount < 256 ∨ r.eng.getCachedRule p.id ≠ none ∨
      compileRules V p.strategyType p.rules = none ∨ p.status = .disabled)
  | .invalidatePolicy id => id ≠ 0
  | _ => True

instance (V : Vendor) (r : RuleHeap) (call : EngineCall) : Decidable (RoomyCall V r call) := by
  cases call <;> dsimp only [RoomyCall] <;> infer_instance

/-! ## §2 The engine's own runs -/

variable {V : Vendor} {r : RuleHeap} {id : Nat}
  {eng' : Engine} {h : Heap} {p : Policy} {s : Store} {r' : RuleHeap}

theorem evaluatePolicy_engine {ctx ctx' : EvalContext} {res : StrategyResult}
    (heval : evaluatePolicy V h s r.eng p ctx = some (res, ctx', eng')) :
    (r.evaluate V p).eng = eng' := by
  unfold evaluatePolicy at heval
  unfold RuleHeap.evaluate
  split at heval
  · next hdisabled =>
    cases heval
    rw [if_pos hdisabled]
  · next henabled =>
    rw [if_neg henabled]
    split at heval
    · next hunknown =>
      cases heval
      rw [if_pos hunknown]
    · next hknown =>
      rw [if_neg hknown]
      obtain ⟨_, -, heq⟩ := map_eq_some_iff.mp heval
      obtain rfl := congrArg (fun r => r.2.2) heq
      show _ = (compiledFor V r.eng p).2
      unfold compiledFor
      cases r.eng.getCachedRule p.id with
      | some c => rfl
      | none => cases compileRules V p.strategyType p.rules <;> rfl

theorem evalLoop_run {ps : List Policy} {any allowed : Bool} {ctx ctx' : EvalContext}
    (hloop : evalLoop V h s ps any r.eng ctx = some (allowed, ctx', eng')) :
    ∃ qs r', qs <+: ps ∧
      run (RuleHeap.step V) (qs.map EngineCall.evaluate) r = some r' ∧ r'.eng = eng' := by
  induction ps generalizing any r ctx with
  | nil =>
    cases hloop
    exact ⟨[], r, prefix_refl _, rfl, rfl⟩
  | cons p ps ih =>
    obtain ⟨res, ctx₁, eng₁, heval, ⟨-, hout⟩ | ⟨-, any', hloop⟩⟩ := evalLoop_cons hloop
    · cases hout
      exact ⟨[p], r.evaluate V p, by simp, rfl, evaluatePolicy_engine heval⟩
    · rw [← evaluatePolicy_engine heval] at hloop
      obtain ⟨qs, r', hqs, hrun, heng⟩ := ih hloop
      exact ⟨p :: qs, r', cons_prefix_cons.mpr ⟨rfl, hqs⟩, hrun, heng⟩

/-! ## §3 A free slot is found -/

theorem probe_none {stop : CacheSlot → Bool} {cache : Nat → CacheSlot} {fuel idx : Nat}
    (hidx : idx < 256) (hp : Engine.probe stop cache fuel idx = none) {k : Nat} (hk : k < fuel) :
    stop (cache ((idx + k) % 256)) = false := by
  induction fuel generalizing idx k with
  | zero => cases hk
  | succ fuel ih =>
    rw [probe] at hp
    split at hp
    · cases hp
    · next hstop =>
      cases k with
      | zero => simpa [mod_eq_of_lt hidx] using hstop
      | succ k =>
        have hrest := ih (mod_lt _ (by decide)) hp (lt_of_succ_lt_succ hk)
        rwa [mod_add_mod, add_assoc, add_comm 1 k] at hrest

theorem findSlot_of_room {eng : Engine} (hroom : eng.occupied.card < 256) (id : Nat) :
    ∃ j, eng.findSlot id = some j := by
  cases hf : eng.findSlot id with
  | some j => exact ⟨j, rfl⟩
  | none =>
    exfalso
    have hall : ∀ i < 256, i ∈ eng.occupied := by
      intro i hi
      have hstop := probe_none (mod_lt id (by decide)) hf
        (show (i + 256 - id % 256) % 256 < 256 from mod_lt _ (by decide))
      have hslot : (id % 256 + (i + 256 - id % 256) % 256) % 256 = i := by
        omega
      rw [hslot] at hstop
      exact mem_occupied.mpr ⟨hi, by simpa using (Bool.or_eq_false_iff.mp hstop).2⟩
    have hsub : Finset.range 256 ⊆ eng.occupied := fun i hi => hall i (Finset.mem_range.mp hi)
    have := Finset.card_le_card hsub
    rw [Finset.card_range] at this
    omega

/-! ## §4 The invariant -/

/-- Every taken slot holds a live rule of its own, and every live rule has such a slot. -/
structure RuleHeapInv (r : RuleHeap) : Prop where
  count : r.eng.cacheCount = r.eng.occupied.card
  filled : ∀ i ∈ r.eng.occupied, (r.eng.cache i).compiled ≠ none
  live : ∀ i ∈ r.eng.occupied, ∃ n, r.ptr i = some n ∧ n < r.allocated ∧ n ∉ r.freed
  distinct : ∀ i ∈ r.eng.occupied, ∀ j ∈ r.eng.occupied, r.ptr i = r.ptr j → i = j
  owner : ∀ n < r.allocated, n ∉ r.freed → ∃ i ∈ r.eng.occupied, r.ptr i = some n
  known : ∀ n ∈ r.freed, n < r.allocated
  freedOnce : r.freed.Nodup
  noStaleUse : r.staleUse = false

theorem ruleHeapInv_start : RuleHeapInv .start where
  count := ruleCacheInv_start.count
  filled _ hi := absurd rfl (mem_occupied.mp hi).2
  live _ hi := absurd rfl (mem_occupied.mp hi).2
  distinct _ hi := absurd rfl (mem_occupied.mp hi).2
  owner n hn := absurd hn (not_lt_zero n)
  known _ hn := absurd hn not_mem_nil
  freedOnce := nodup_nil
  noStaleUse := rfl

theorem RuleHeapInv.rulesOwned (hinv : RuleHeapInv r) : RulesOwned r where
  held n hn hlive := by
    obtain ⟨i, hi, hptr⟩ := hinv.owner n hn hlive
    refine ⟨i, ⟨hi, hptr⟩, ?_⟩
    rintro j ⟨hj, hptr'⟩
    exact hinv.distinct j hj i hi (hptr'.trans hptr.symm)
  bounded := by
    have hsub : ((Finset.range r.allocated).filter fun n => n ∉ r.freed) ⊆
        r.eng.occupied.image fun i => (r.ptr i).getD 0 := by
      intro n hn
      obtain ⟨hn, hlive⟩ := Finset.mem_filter.mp hn
      obtain ⟨i, hi, hptr⟩ := hinv.owner n (Finset.mem_range.mp hn) hlive
      exact Finset.mem_image.mpr ⟨i, hi, by rw [hptr]; rfl⟩
    calc _ ≤ (r.eng.occupied.image fun i => (r.ptr i).getD 0).card := Finset.card_le_card hsub
      _ ≤ r.eng.occupied.card := Finset.card_image_le
      _ ≤ (Finset.range 256).card := Finset.card_filter_le _ _
      _ = 256 := Finset.card_range 256
  __ := hinv

/-! ## §5 One call -/

theorem RuleHeapInv.use (hinv : RuleHeapInv r) {rule : Option Nat}
    (hrule : ∀ n, rule = some n → n ∉ r.freed) : RuleHeapInv (r.use rule) := by
  have hsame : r.use rule = r := by
    have hnone : (rule.any fun n => r.freed.contains n) = false := by
      cases rule with
      | none => rfl
      | some n => simpa using hrule n rfl
    unfold RuleHeap.use
    rw [hnone, Bool.or_false]
  rwa [hsame]

theorem cachedPtr_slot {n : Nat} (hid : id ≠ 0) (hptr : r.cachedPtr id = some n) :
    ∃ i ∈ r.eng.occupied, r.ptr i = some n := by
  unfold RuleHeap.cachedPtr at hptr
  split at hptr
  · cases hptr
  · cases hf : r.eng.findSlot id with
    | none => simp [hf] at hptr
    | some j =>
      simp only [hf] at hptr
      split at hptr
      · next hown => exact ⟨j, mem_occupied.mpr ⟨(findSlot_some hf).1, hown ▸ hid⟩, hptr⟩
      · cases hptr

/-- A lookup that finds nothing while there is room: the probe ended in an empty slot. -/
theorem RuleHeapInv.slot_empty (hinv : RuleHeapInv r) {j : Nat} (hid : id ≠ 0)
    (hf : r.eng.findSlot id = some j) (hmiss : r.eng.getCachedRule id = none) :
    (r.eng.cache j).policyId = 0 := by
  obtain ⟨hj, hown | hempty⟩ := findSlot_some hf
  · have hmem : j ∈ r.eng.occupied := mem_occupied.mpr ⟨hj, hown ▸ hid⟩
    have hcount : r.eng.cacheCount ≠ 0 := by
      rw [hinv.count]
      exact Finset.card_ne_zero_of_mem hmem
    simp only [getCachedRule, if_neg hcount, hf, if_pos hown] at hmiss
    exact absurd hmiss (hinv.filled j hmem)
  · exact hempty

theorem RuleHeapInv.compile (hinv : RuleHeapInv r) (hid : id ≠ 0)
    (hmiss : r.eng.getCachedRule id = none) (hroom : r.eng.cacheCount < 256) (c : Compiled) :
    RuleHeapInv (r.compile id c) := by
  obtain ⟨j, hf⟩ := findSlot_of_room (hinv.count ▸ hroom) id
  have hempty := hinv.slot_empty hid hf hmiss
  have hj : j ∉ r.eng.occupied := fun hmem => (mem_occupied.mp hmem).2 hempty
  have hfresh : r.allocated ∉ r.freed := fun h => Nat.lt_irrefl _ (hinv.known _ h)
  have heng : r.eng.cacheRule id c = { r.eng with
      cache := update r.eng.cache j { policyId := id, compiled := some c }
      cacheCount := r.eng.cacheCount + 1 } := by
    simp only [cacheRule, if_neg (Nat.not_le.mpr hroom), hf, if_pos hempty]
  have hptr : r.storePtr id r.allocated = update r.ptr j (some r.allocated) := by
    simp only [RuleHeap.storePtr, if_neg (Nat.not_le.mpr hroom), hf]
  have hocc : (r.eng.cacheRule id c).occupied = insert j r.eng.occupied := by
    rw [heng]
    exact occupied_store (findSlot_some hf).1 (by exact hid) rfl
  have hne : ∀ {i}, i ∈ r.eng.occupied → i ≠ j := fun hi h => hj (h ▸ hi)
  refine RuleHeapInv.use (r := { r with
    eng := r.eng.cacheRule id c
    ptr := r.storePtr id r.allocated
    allocated := r.allocated + 1 }) ⟨?_, ?_, ?_, ?_, ?_, ?_, hinv.freedOnce, hinv.noStaleUse⟩ ?_
  · rw [hocc, Finset.card_insert_of_notMem hj, ← hinv.count, heng]
  · simp only [hocc]
    simp only [heng]
    intro i hi
    obtain rfl | hi := Finset.mem_insert.mp hi
    · simp
    · simpa [hne hi] using hinv.filled i hi
  · simp only [hocc, hptr]
    intro i hi
    obtain rfl | hi := Finset.mem_insert.mp hi
    · exact ⟨r.allocated, by simp, Nat.lt_succ_self _, hfresh⟩
    · obtain ⟨n, hn, hlt, hlive⟩ := hinv.live i hi
      exact ⟨n, by simpa [hne hi] using hn, Nat.lt_succ_of_lt hlt, hlive⟩
  · simp only [hocc, hptr]
    -- the new rule is in no other slot: rules there were allocated before
    have hold : ∀ i ∈ r.eng.occupied, r.ptr i ≠ some r.allocated := by
      intro i hi heq
      obtain ⟨n, hn, hlt, -⟩ := hinv.live i hi
      cases heq.symm.trans hn
      exact Nat.lt_irrefl _ hlt
    intro i hi k hk heq
    obtain hij | hi := Finset.mem_insert.mp hi <;> obtain hkj | hk := Finset.mem_insert.mp hk
    · exact hij.trans hkj.symm
    · rw [hij, update_self, update_of_ne (hne hk)] at heq
      exact absurd heq.symm (hold k hk)
    · rw [hkj, update_self, update_of_ne (hne hi)] at heq
      exact absurd heq (hold i hi)
    · rw [update_of_ne (hne hi), update_of_ne (hne hk)] at heq
      exact hinv.distinct i hi k hk heq
  · simp only [hocc, hptr]
    intro n hn hlive
    obtain hn | rfl := Nat.lt_succ_iff_lt_or_eq.mp hn
    · obtain ⟨i, hi, hown⟩ := hinv.owner n hn hlive
      exact ⟨i, Finset.mem_insert_of_mem hi, by simpa [hne hi] using hown⟩
    · exact ⟨j, Finset.mem_insert_self _ _, by simp⟩
  · exact fun n hn => Nat.lt_succ_of_lt (hinv.known n hn)
  · rintro n hn
    cases hn
    exact hfresh

theorem RuleHeapInv.evaluate (hinv : RuleHeapInv r)
    (hcall : RoomyCall V r (.evaluate p)) : RuleHeapInv (r.evaluate V p) := by
  obtain ⟨hid, hroom⟩ := hcall
  unfold RuleHeap.evaluate
  split
  · exact hinv
  · next henabled =>
    split
    · exact hinv
    · split
      · refine hinv.use fun n hn => ?_
        obtain ⟨i, hi, hptr⟩ := cachedPtr_slot hid hn
        obtain ⟨m, hm, -, hlive⟩ := hinv.live i hi
        cases hptr.symm.trans hm
        exact hlive
      · next hmiss =>
        split
        · exact hinv
        · next c hcompile =>
          refine hinv.compile hid hmiss ?_ c
          rcases hroom with hroom | hhit | hfail | hdisabled
          · exact hroom
          · exact absurd hmiss hhit
          · exact absurd (hcompile.symm.trans hfail) (by simp)
          · exact absurd hdisabled henabled

/-- The slots that are emptied free their rules, and only theirs. -/
theorem RuleHeapInv.free (hinv : RuleHeapInv r) {dropped : List Nat}
    {kept : Finset Nat} (hcount : r'.eng.cacheCount = kept.card) (hocc : r'.eng.occupied = kept)
    (hkept : kept ⊆ r.eng.occupied) (hptr : r'.ptr = r.ptr) (halloc : r'.allocated = r.allocated)
    (hfilled : ∀ i ∈ kept, (r'.eng.cache i).compiled = (r.eng.cache i).compiled)
    (hfreed : r'.freed = r.freed ++ dropped) (hdup : dropped.Nodup)
    (hdropped : ∀ n, n ∈ dropped ↔ ∃ i ∈ r.eng.occupied, i ∉ kept ∧ r.ptr i = some n)
    (huse : r'.staleUse = r.staleUse) : RuleHeapInv r' := by
  refine ⟨?_, ?_, ?_, ?_, ?_, ?_, ?_, ?_⟩
  · rw [hocc, hcount]
  · rw [hocc]
    intro i hi
    rw [hfilled i hi]
    exact hinv.filled i (hkept hi)
  · rw [hocc, hptr, halloc, hfreed]
    intro i hi
    obtain ⟨n, hn, hlt, hlive⟩ := hinv.live i (hkept hi)
    refine ⟨n, hn, hlt, fun hmem => ?_⟩
    obtain hmem | hmem := mem_append.mp hmem
    · exact hlive hmem
    · obtain ⟨k, hk, hgone, hn'⟩ := (hdropped n).mp hmem
      exact hgone (hinv.distinct i (hkept hi) k hk (hn.trans hn'.symm) ▸ hi)
  · rw [hocc, hptr]
    exact fun i hi k hk => hinv.distinct i (hkept hi) k (hkept hk)
  · rw [hocc, hptr, halloc, hfreed]
    intro n hn hlive
    rw [mem_append, not_or] at hlive
    obtain ⟨i, hi, hown⟩ := hinv.owner n hn hlive.1
    by_cases hin : i ∈ kept
    · exact ⟨i, hin, hown⟩
    · exact absurd ((hdropped n).mpr ⟨i, hi, hin, hown⟩) hlive.2
  · rw [hfreed, halloc]
    intro n hn
    obtain hn | hn := mem_append.mp hn
    · exact hinv.known n hn
    · obtain ⟨i, hi, -, hown⟩ := (hdropped n).mp hn
      obtain ⟨m, hm, hlt, -⟩ := hinv.live i hi
      cases hown.symm.trans hm
      exact hlt
  · rw [hfreed]
    refine hinv.freedOnce.append hdup fun n hn hn' => ?_
    obtain ⟨i, hi, -, hown⟩ := (hdropped n).mp hn'
    obtain ⟨m, hm, -, hlive⟩ := hinv.live i hi
    cases hown.symm.trans hm
    exact hlive hn
  · rw [huse]
    exact hinv.noStaleUse

theorem RuleHeapInv.invalidatePolicy (hinv : RuleHeapInv r) (hid : id ≠ 0) : RuleHeapInv { r with
      eng := r.eng.invalidatePolicy id
      freed := r.freed ++ (r.droppedPtr id).toList } := by
  -- a table without the id stays as it is, and nothing is freed
  have hkeep : r.eng.dropRule id = r.eng → r.droppedPtr id = none → RuleHeapInv { r with
      eng := r.eng.invalidatePolicy id
      freed := r.freed ++ (r.droppedPtr id).toList } := by
    intro heng hptr
    rw [Engine.invalidatePolicy, heng, hptr, toList_none, append_nil]
    exact ⟨hinv.count, hinv.filled, hinv.live, hinv.distinct, hinv.owner, hinv.known,
      hinv.freedOnce, hinv.noStaleUse⟩
  cases hf : r.eng.findSlot id with
  | none =>
    exact hkeep (by simp only [Engine.dropRule, hf]) (by simp only [RuleHeap.droppedPtr, hf])
  | some j =>
    by_cases hown : (r.eng.cache j).policyId = id
    · have hmem : j ∈ r.eng.occupied := mem_occupied.mpr ⟨(findSlot_some hf).1, hown ▸ hid⟩
      obtain ⟨n, hn, -, -⟩ := hinv.live j hmem
      have hcache : (r.eng.invalidatePolicy id).cache =
          update r.eng.cache j { r.eng.cache j with policyId := 0 } := by
        simp only [Engine.invalidatePolicy, Engine.dropRule, hf, if_pos hown]
        rfl
      have hdrop : r.droppedPtr id = some n := by
        simp only [RuleHeap.droppedPtr, hf, if_pos hown, hn]
      refine hinv.free ?_ (occupied_empty rfl hcache) (Finset.erase_subset _ _) rfl rfl ?_ rfl ?_ ?_
        rfl
      · rw [Finset.card_erase_of_mem hmem, ← hinv.count]
        simp only [Engine.invalidatePolicy, Engine.dropRule, hf, if_pos hown]
        rfl
      · intro i hi
        rw [hcache, update_of_ne (Finset.ne_of_mem_erase hi)]
      · rw [hdrop]
        exact nodup_singleton n
      · intro m
        rw [hdrop, toList_some, mem_singleton]
        constructor
        · rintro rfl
          exact ⟨j, hmem, Finset.notMem_erase _ _, hn⟩
        · rintro ⟨i, hi, hgone, hm⟩
          obtain rfl : i = j := by
            by_contra hij
            exact hgone (Finset.mem_erase.mpr ⟨hij, hi⟩)
          exact some.inj (hm.symm.trans hn)
    · exact hkeep (by simp only [Engine.dropRule, hf, if_neg hown])
        (by simp only [RuleHeap.droppedPtr, hf, if_neg hown])

theorem RuleHeapInv.invalidateAll (hinv : RuleHeapInv r) : RuleHeapInv { r with
      eng := r.eng.invalidateAll
      freed := r.freed ++ ((List.range 256).filter fun i =>
        (r.eng.cache i).policyId != 0).filterMap r.ptr } := by
  have hnone : r.eng.invalidateAll.occupied = ∅ :=
    Finset.filter_eq_empty_iff.mpr fun _ _ hne => hne rfl
  have htaken : ∀ i, i ∈ (List.range 256).filter (fun i => (r.eng.cache i).policyId != 0) ↔
      i ∈ r.eng.occupied := by
    intro i
    rw [mem_filter, mem_occupied, mem_range, bne_iff_ne]
  have hcount : r.eng.invalidateAll.cacheCount = (∅ : Finset Nat).card := rfl
  refine hinv.free hcount hnone (Finset.empty_subset _) rfl rfl ?_ rfl ?_ ?_ rfl
  · exact fun i hi => absurd hi (Finset.notMem_empty i)
  · refine pairwise_filterMap.mpr ((nodup_range.filter _).imp_of_mem ?_)
    rintro i k hi hk hik n hn m hm rfl
    exact hik (hinv.distinct i ((htaken i).mp hi) k ((htaken k).mp hk) (hn.trans hm.symm))
  · intro n
    rw [mem_filterMap]
    constructor
    · rintro ⟨i, hi, hn⟩
      exact ⟨i, (htaken i).mp hi, Finset.notMem_empty i, hn⟩
    · rintro ⟨i, hi, -, hn⟩
      exact ⟨i, (htaken i).mpr hi, hn⟩

theorem RuleHeapInv.step {call : EngineCall} (hinv : RuleHeapInv r)
    (hcall : RoomyCall V r call) (hstep : r.step V call = some r') : RuleHeapInv r' := by
  cases call with
  | evaluate p =>
    cases hstep
    exact hinv.evaluate hcall
  | invalidatePolicy id =>
    cases hstep
    exact hinv.invalidatePolicy hcall
  | invalidateUser uid =>
    cases hstep
    exact ⟨hinv.count, hinv.filled, hinv.live, hinv.distinct, hinv.owner, hinv.known,
      hinv.freedOnce, hinv.noStaleUse⟩
  | invalidateAll =>
    cases hstep
    exact hinv.invalidateAll

/-! ## §6 Runs -/

/-- **Ownership.** In every run of such calls each live rule is held by exactly one slot, at
most 256 are alive, none is freed twice and none is used after it was freed. -/
theorem rulesOwned_of_roomy {V : Vendor} {calls : List EngineCall} {r : RuleHeap}
    (hcalls : Along (RuleHeap.step V) (RoomyCall V) calls .start)
    (hrun : run (RuleHeap.step V) calls .start = some r) : RulesOwned r :=
  (invariant_of_run (fun _ _ _ hinv hcall hstep => RuleHeapInv.step hinv hcall hstep)
    ruleHeapInv_start hcalls hrun).rulesOwned

/-- `{"functions":[]}`, under a short name. -/
def emptyRulesVendor : Vendor :=
  .ofTable [(CMem.lit "r", .obj [(CMem.lit "functions", .arr [])])]

def numberedPolicy (id : Nat) : Policy where
  id
  name := []
  strategyType := .functional
  effect := .allow
  priority := 0
  rules := CMem.lit "r"
  status := .enabled

/-- Two ids with one home slot: the second is compiled twice, since its chain was cut. -/
def cutChainHistory : List EngineCall :=
  [.evaluate (numberedPolicy 1), .evaluate (numberedPolicy 257), .invalidatePolicy 1,
    .evaluate (numberedPolicy 257), .invalidatePolicy 257, .evaluate (numberedPolicy 257),
    .invalidateAll]

theorem cutChainHistory_owned :
    ∃ r, run (RuleHeap.step emptyRulesVendor) cutChainHistory .start = some r ∧ RulesOwned r := by
  obtain ⟨r, hrun⟩ : ∃ r, run (RuleHeap.step emptyRulesVendor) cutChainHistory .start = some r :=
    ⟨_, rfl⟩
  refine ⟨r, hrun, rulesOwned_of_roomy ?_ hrun⟩
  decide +kernel

/-- Policies 1 to 257, each evaluated once. -/
def crowdedHistory : List EngineCall :=
  (List.range 257).map fun i => .evaluate (numberedPolicy (i + 1))

/-- The last of them is compiled, used and held by no slot. -/
theorem crowdedHistory_leaks :
    ∃ r, run (RuleHeap.step emptyRulesVendor) crowdedHistory .start = some r ∧ ¬ RulesOwned r := by
  refine exists_some_of_any (P := fun r => r.allocated = 257 ∧ r.freed = []) (by decide +kernel) ?_
  rintro r - ⟨halloc, hfreed⟩ howned
  have hbound := howned.bounded
  simp [halloc, hfreed] at hbound

end SsoSystem
