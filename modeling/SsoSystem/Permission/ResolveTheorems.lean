/-
SsoSystem.Permission.ResolveTheorems — which of a user's policies take part
in a decision.

`Assigned` has no limit on numbers or depth. `policy_resolve_for_user` keeps the
first 64 of the entries in its collection order (`collectPolicies_eq`) and then
sorts them, so what is dropped depends on that order and not on priority.
-/
import Mathlib.Algebra.Order.BigOperators.Group.List
import Mathlib.Data.List.Sort
import SsoSystem.Permission.DecisionTheorems

namespace SsoSystem

open CMem DenyOverride List

/-! ## §1 Assignment without limits -/

/-- `a` is reached from `r` by following parents. -/
def IsAncestor (parent : Nat → Option Nat) (r a : Nat) : Prop :=
  ∃ n, a ∈ getAncestors parent n r

/-- The targets whose policies apply to a user. -/
inductive AppliesTo (s : Store) (uid : Nat) : TargetType → Nat → Prop where
  | user : AppliesTo s uid .user uid
  | role {r : Nat} (h : (r, uid) ∈ s.userRoles) : AppliesTo s uid .role r
  | roleAncestor {r a : Nat} (h : (r, uid) ∈ s.userRoles)
      (ha : IsAncestor s.roleGetParent r a) : AppliesTo s uid .role a
  | group {g : Nat} (h : (g, uid) ∈ s.userGroups) : AppliesTo s uid .group g
  | groupAncestor {g a : Nat} (h : (g, uid) ∈ s.userGroups)
      (ha : IsAncestor s.groupGetParent g a) : AppliesTo s uid .group a

/-- A stored policy assigned to some target that applies to the user. -/
def Assigned (s : Store) (uid : Nat) (p : Policy) : Prop :=
  s.policyGetById p.id = some p ∧
    ∃ tt tid, AppliesTo s uid tt tid ∧ ⟨p.id, tt, tid⟩ ∈ s.policyAssignments

/-! ## §2 The collection order -/

variable (s : Store) (tt : TargetType) (ancestors : Nat → List Nat) (tid : Nat)

/-- The policies one target contributes, at most 64 ids. -/
def targetEntries : List Policy :=
  (s.getTargetPolicies tt tid 64).filterMap s.policyGetById

/-- A role or group with at most 16 of its ancestors. -/
def hierarchyEntries : List Policy :=
  (tid :: ancestors tid).flatMap (targetEntries s tt)

/-- Everything the collection would visit if its array had no end. -/
def entries (uid : Nat) : List Policy :=
  targetEntries s .user uid ++
    ((s.getUserRoles uid 64).flatMap
      (hierarchyEntries s .role fun r => roleGetAncestors s r 16) ++
    (s.getUserGroups uid 64).flatMap
      (hierarchyEntries s .group fun g => groupGetAncestors s g 16))

variable {α : Type} {acc ps : List Policy} {tt : TargetType} {p : Policy} {eng : Engine}

/-- Cutting early makes no difference to what is kept at the end. -/
theorem take_append_take (n : Nat) (l m : List α) : (l.take n ++ m).take n = (l ++ m).take n := by
  rw [take_append, take_append, take_take, Nat.min_self, length_take]
  by_cases h : l.length ≤ n
  · rw [Nat.min_eq_right h]
  · rw [Nat.min_eq_left (by omega), Nat.sub_self, show n - l.length = 0 by omega]

variable {max uid : Nat} {s : Store} {V : Vendor} {h : Heap} {now : UInt64} {ctx : EvalContext}

/-- A guarded loop whose steps append is the truncated concatenation. -/
theorem whileRoom_eq_take {step : List Policy → α → List Policy} {f : α → List Policy}
    (hstep : ∀ acc x, acc.length < max → step acc x = (acc ++ f x).take max) :
    ∀ {xs : List α} {acc : List Policy}, acc.length ≤ max →
      whileRoom max step acc xs = (acc ++ xs.flatMap f).take max
  | [], acc, hacc => by
    rw [whileRoom, List.flatMap_nil, List.append_nil, List.take_of_length_le hacc]
  | x :: xs, acc, hacc => by
    rw [whileRoom]
    split
    · next hroom =>
      rw [hstep acc x hroom, whileRoom_eq_take hstep (by rw [List.length_take]; omega),
        take_append_take, List.flatMap_cons, List.append_assoc]
    · next hfull =>
      rw [List.take_append_of_le_length (by omega), List.take_of_length_le hacc]

/-- The loop over one target appends its policies until the array is full. -/
theorem collectPoliciesForTarget_eq (hacc : acc.length ≤ max) (tid : Nat) :
    collectPoliciesForTarget s tt max acc tid = (acc ++ targetEntries s tt tid).take max := by
  have hstep : ∀ (acc : List Policy) (pid : Nat), acc.length < max →
      acc ++ (s.policyGetById pid).toList = (acc ++ (s.policyGetById pid).toList).take max := by
    intro acc pid hroom
    rw [take_of_length_le]
    cases s.policyGetById pid <;> simp <;> omega
  have hflat : ∀ ids : List Nat, ids.flatMap (fun pid => (s.policyGetById pid).toList) =
      ids.filterMap s.policyGetById := by
    intro ids
    rw [filterMap_eq_flatMap_toList]
  unfold collectPoliciesForTarget targetEntries
  rw [whileRoom_eq_take hstep hacc, hflat]

/-- A role or group, then its ancestors. -/
theorem collectWithAncestors_eq {anc : Nat → List Nat} (hacc : acc.length ≤ max) (tid : Nat) :
    collectWithAncestors s tt anc max acc tid =
      (acc ++ hierarchyEntries s tt anc tid).take max := by
  have hlen : (collectPoliciesForTarget s tt max acc tid).length ≤ max := by
    rw [collectPoliciesForTarget_eq hacc, length_take]
    omega
  unfold collectWithAncestors hierarchyEntries
  rw [whileRoom_eq_take (fun a x h => collectPoliciesForTarget_eq (by omega) x) hlen,
    collectPoliciesForTarget_eq hacc, take_append_take, flatMap_cons, append_assoc]

/-- The collection is the first `max` entries in the order of the source. -/
theorem collectPolicies_eq (s : Store) (uid : Nat) (max : Nat) :
    collectPolicies s uid max = (entries s uid).take max := by
  have hlen : ∀ (l : List Policy), (l.take max).length ≤ max := by
    intro l
    rw [length_take]
    omega
  unfold collectPolicies entries
  dsimp only
  rw [collectPoliciesForTarget_eq (Nat.zero_le _), nil_append,
    whileRoom_eq_take (fun a x h => collectWithAncestors_eq (by omega) x) (hlen _),
    take_append_take,
    whileRoom_eq_take (fun a x h => collectWithAncestors_eq (by omega) x) (hlen _),
    take_append_take, append_assoc]

/-! ## §3 Sorting -/

/-- Lowest priority first, as the sorted part is read from its end. -/
theorem sinkByPriority_eq (key : Policy) (sorted : List Policy) :
    sinkByPriority key sorted = sorted.orderedInsert (fun p q => p.priority ≤ q.priority) key := by
  induction sorted with
  | nil => rfl
  | cons p sorted ih =>
    rw [sinkByPriority, orderedInsert, ih]
    grind

/-- The insertion sort, as Mathlib's on the reversed list. -/
theorem sortByPriority_eq (ps : List Policy) :
    sortByPriority ps = (ps.reverse.insertionSort fun p q => p.priority ≤ q.priority).reverse := by
  rw [sortByPriority, insertionSort, foldr_reverse]
  simp only [sinkByPriority_eq]

/-- Sorting loses and repeats nothing. -/
theorem sortByPriority_perm (ps : List Policy) : (sortByPriority ps).Perm ps := by
  rw [sortByPriority_eq]
  exact (reverse_perm _).trans ((perm_insertionSort _ _).trans (reverse_perm ps))

variable {key hole : Policy} {sorted rest : List Policy}

/-- One round of the loop on the array, as an insertion into a list. -/
theorem sinkInPlace_eq : sinkInPlace key sorted.length (sorted.reverse ++ hole :: rest) =
    (sinkByPriority key sorted).reverse ++ rest := by
  induction sorted generalizing hole rest with
  | nil => rfl
  | cons p sorted ih =>
    have hget : ((p :: sorted).reverse ++ hole :: rest)[sorted.length]? = some p := by simp
    have hset : ∀ q, ((p :: sorted).reverse ++ hole :: rest).set (sorted.length + 1) q =
        sorted.reverse ++ p :: q :: rest := by simp
    rw [length_cons, sinkInPlace, hget, sinkByPriority]
    simp only [hset]
    split
    · rw [ih, reverse_cons, append_assoc]
      rfl
    · simp

/-- All rounds, by induction on the part that is not sorted yet. -/
theorem foldl_sinkInPlace : (range' sorted.length rest.length).foldl
    (fun ps i => ps[i]?.elim ps fun key => sinkInPlace key i ps) (sorted.reverse ++ rest) =
      (rest.foldl (fun sorted key => sinkByPriority key sorted) sorted).reverse := by
  induction rest generalizing sorted with
  | nil => simp
  | cons key rest ih =>
    have hget : (sorted.reverse ++ key :: rest)[sorted.length]? = some key := by simp
    have hlen : (sinkByPriority key sorted).length = sorted.length + 1 := by
      rw [sinkByPriority_eq, orderedInsert_length]
    rw [length_cons, range'_succ, foldl_cons, hget, Option.elim_some, sinkInPlace_eq, ← hlen, ih,
      foldl_cons]

/-- The loop on the array is the sort on lists. -/
theorem sortInPlace_eq (ps : List Policy) : sortInPlace ps = sortByPriority ps := by
  cases ps with
  | nil => rfl
  | cons p ps => exact @foldl_sinkInPlace [p] ps

/-- The sort is a stable one by descending priority, and never has more than `max` entries
to sort. -/
theorem sortInPlace_stable (ps : List Policy) : (sortInPlace ps).Perm ps ∧
    (sortInPlace ps).Pairwise (fun p q => q.priority ≤ p.priority) ∧
    (∀ n, (sortInPlace ps).filter (·.priority = n) = ps.filter (·.priority = n)) ∧
    ∀ s uid max, policyResolveForUser s uid max = sortInPlace (collectPolicies s uid max) ∧
      (policyResolveForUser s uid max).length ≤ max := by
  have hperm := sortByPriority_perm ps
  simp only [sortInPlace_eq]
  refine ⟨hperm, ?_, fun n => ?_, fun s uid max => ⟨rfl, ?_⟩⟩
  · have : Std.Total fun p q : Policy => p.priority ≤ q.priority := ⟨fun p q => Int.le_total _ _⟩
    have : IsTrans Policy fun p q => p.priority ≤ q.priority := ⟨fun p q r => Int.le_trans⟩
    rw [sortByPriority_eq]
    exact pairwise_reverse.mpr (pairwise_insertionSort _ _)
  · -- entries of one priority are in order from the start, so the sort keeps them as they are
    have hsub : (ps.filter (·.priority = n)).reverse.Sublist (sortByPriority ps).reverse := by
      rw [sortByPriority_eq, reverse_reverse]
      refine sublist_insertionSort (pairwise_of_forall_mem_list ?_) (filter_sublist.reverse)
      simp +contextual
    have hkept := (reverse_sublist.mp hsub).filter (·.priority = n)
    simp only [filter_filter, Bool.and_self] at hkept
    exact (hkept.eq_of_length (by simpa using (hperm.filter (·.priority = n)).length_eq.symm)).symm
  · rw [policyResolveForUser, (sortByPriority_perm _).length_eq, collectPolicies_eq, length_take]
    exact Nat.min_le_left _ _

/-- What is resolved are the first 64 entries, in another order. -/
theorem policyResolveForUser_perm (s : Store) (uid : Nat) :
    (policyResolveForUser s uid 64).Perm ((entries s uid).take 64) := by
  unfold policyResolveForUser
  rw [collectPolicies_eq]
  exact sortByPriority_perm _

/-- Each entry is a stored policy. -/
theorem policyGetById_of_mem_entries (hp : p ∈ entries s uid) : s.policyGetById p.id = some p := by
  have htarget : ∀ {tt tid}, p ∈ targetEntries s tt tid → s.policyGetById p.id = some p := by
    intro tt tid hm
    obtain ⟨pid, -, hget⟩ := mem_filterMap.mp hm
    have hid : p.id = pid := by simpa using find?_some hget
    rw [hid]; exact hget
  unfold entries hierarchyEntries at hp
  simp only [mem_append, mem_flatMap] at hp
  rcases hp with hp | ⟨_, _, _, _, hp⟩ | ⟨_, _, _, _, hp⟩
  · exact htarget hp
  · exact htarget hp
  · exact htarget hp

theorem policyGetById_of_mem_resolve (hp : p ∈ policyResolveForUser s uid 64) :
    s.policyGetById p.id = some p :=
  policyGetById_of_mem_entries
    (mem_of_mem_take ((policyResolveForUser_perm s uid).mem_iff.mp hp))

/-- Resolved policies with one id are the same policy. -/
theorem idsConsistent_resolve (s : Store) (uid : Nat) :
    IdsConsistent (policyResolveForUser s uid 64) := by
  intro p hp q hq hid
  have hp' := policyGetById_of_mem_resolve hp
  rw [hid, policyGetById_of_mem_resolve hq] at hp'
  exact (Option.some.inj hp').symm

/-! ## §4 No assigned deny is overlooked -/

/-- An engine about to decide on the store's own policies: the decision cache
misses, level 1 misses or agrees with the store, and the rule cache is right. -/
structure DecidesOnStore (V : Vendor) (s : Store) (eng : Engine) (now : UInt64)
    (ctx : EvalContext) : Prop where
  miss : eng.lookupL2 ctx.userId (hashParams ctx) now = none
  list : eng.policiesFor s ctx.userId now = policyResolveForUser s ctx.userId 64
  rules : RuleCacheOk V eng (policyResolveForUser s ctx.userId 64)

/-- On a miss in every cache, the votes of the resolved policies are combined. -/
theorem DecidesOnStore.evaluate (hd : DecidesOnStore V s eng now ctx) :
    (evaluateInternal V h s eng now ctx).map Prod.fst =
      combine ((policyResolveForUser s ctx.userId 64).map (vote V h s ctx)) false := by
  have heval := evaluateInternal_of_miss (h := h) hd.miss
    (by rw [hd.list]; exact idsConsistent_resolve s ctx.userId) (by rw [hd.list]; exact hd.rules)
  rw [heval, hd.list]

/-- The order of the votes aside, only the cut at 64 matters. -/
theorem mem_votes_resolve_iff {v : Vote} :
    v ∈ (policyResolveForUser s uid 64).map (vote V h s ctx) ↔
      ∃ p ∈ (entries s uid).take 64, vote V h s ctx p = v := by
  rw [((policyResolveForUser_perm s uid).map _).mem_iff, mem_map]

/-- An evaluation of the store's policies allows exactly when one of the first
64 entries allows and none of them denies or fails to return. -/
theorem DecidesOnStore.allows_iff (hd : DecidesOnStore V s eng now ctx) :
    (evaluateInternal V h s eng now ctx).map Prod.fst = some true ↔
      (∃ p ∈ (entries s ctx.userId).take 64, vote V h s ctx p = .allow) ∧
        ∀ p ∈ (entries s ctx.userId).take 64, vote V h s ctx p ≠ .deny ∧
          vote V h s ctx p ≠ .stuck := by
  rw [hd.evaluate, combine_eq_some_true_iff, mem_votes_resolve_iff, mem_votes_resolve_iff,
    mem_votes_resolve_iff]
  simp only [Bool.false_eq_true, false_or, not_exists, not_and]
  constructor
  · rintro ⟨hallow, hdeny, hstuck⟩
    exact ⟨hallow, fun p hp => ⟨hdeny p hp, hstuck p hp⟩⟩
  · rintro ⟨hallow, hrest⟩
    exact ⟨hallow, fun p hp => (hrest p hp).1, fun p hp => (hrest p hp).2⟩

/-- A rule cache filled by one policy that is none of the given ones. -/
def foreignEngine (ps : List Policy) : Engine :=
  { permEngineCreate with
    cache := fun _ => { policyId := (ps.map Policy.id).sum + 1, compiled := none }
    cacheCount := 256 }

theorem decidesOnStore_foreignEngine (V : Vendor) (s : Store) (ctx : EvalContext) :
    DecidesOnStore V s (foreignEngine (policyResolveForUser s ctx.userId 64)) 0 ctx where
  miss := by simp [foreignEngine, Engine.lookupL2, permEngineCreate]
  list := by simp [foreignEngine, Engine.policiesFor, Engine.hitL1, permEngineCreate]
  rules := by
    intro i p hp hid
    have hle : p.id ≤ ((policyResolveForUser s ctx.userId 64).map Policy.id).sum :=
      le_sum_of_mem (mem_map.mpr ⟨p, hp, rfl⟩)
    have hid' : ((policyResolveForUser s ctx.userId 64).map Policy.id).sum + 1 = p.id := hid
    exact absurd hid' (by omega)

/-- However a denying policy reaches the user, the evaluation does not allow. -/
def DenyComplete (V : Vendor) (h : Heap) (s : Store) (ctx : EvalContext) : Prop :=
  ∀ p, Assigned s ctx.userId p → vote V h s ctx p = .deny →
    ∀ eng now, DecidesOnStore V s eng now ctx →
      (evaluateInternal V h s eng now ctx).map Prod.fst ≠ some true

/-- Some denying policy is assigned, but the first 64 entries hold an allow and
neither a deny nor a policy that does not return. -/
def DenyCutOff (V : Vendor) (h : Heap) (s : Store) (ctx : EvalContext) : Prop :=
  (∃ p, Assigned s ctx.userId p ∧ vote V h s ctx p = .deny) ∧
    (∃ p ∈ (entries s ctx.userId).take 64, vote V h s ctx p = .allow) ∧
    ∀ p ∈ (entries s ctx.userId).take 64, vote V h s ctx p ≠ .deny ∧ vote V h s ctx p ≠ .stuck

/-- A deny behind the cut is overlooked. -/
theorem not_denyComplete_of_cutOff (hcut : DenyCutOff V h s ctx) : ¬ DenyComplete V h s ctx := by
  intro hcomp
  obtain ⟨⟨p, hp, hdeny⟩, hrest⟩ := hcut
  have hd := decidesOnStore_foreignEngine V s ctx
  exact hcomp p hp hdeny _ 0 hd (hd.allows_iff.mpr hrest)

/-- No assigned deny is overlooked, unless all of them are cut off. -/
theorem denyComplete_iff (V : Vendor) (h : Heap) (s : Store) (ctx : EvalContext) :
    DenyComplete V h s ctx ↔ ¬ DenyCutOff V h s ctx := by
  constructor
  · intro hcomp hcut
    exact not_denyComplete_of_cutOff hcut hcomp
  · intro hcut p hp hdeny eng now hd hallow
    exact hcut ⟨⟨p, hp, hdeny⟩, hd.allows_iff.mp hallow⟩

/-! ### A deny seventeen parents up -/

def matchAllRules : Bytes := lit "\x7b\"conditions\":[]\x7d"

def denyAllRules : Bytes := lit "\x7b\"conditions\":[],\"effect\":\"deny\"\x7d"

def matchAllVendor : Vendor := .ofTable
  [(matchAllRules, .obj [(lit "conditions", .arr [])]),
    (denyAllRules, .obj [(lit "conditions", .arr []), (lit "effect", .str (lit "deny"))])]

/-- Allows every request. -/
def matchAllPolicy : Policy where
  id := 1
  name := lit "staff"
  strategyType := .abac
  effect := .allow
  priority := 0
  rules := matchAllRules
  status := .enabled

/-- The reader understands the rules of `matchAllPolicy`. -/
def ReadsMatchAll (V : Vendor) : Prop :=
  V.yyjsonRead matchAllRules = some (.obj [(lit "conditions", .arr [])])

theorem vote_matchAll (hread : ReadsMatchAll V) (h : Heap) (s : Store) (ctx : EvalContext)
    (id : Nat) : vote V h s ctx { matchAllPolicy with id } = .allow := by
  have hcomp : abacCompile V matchAllRules =
      some { conditions := [], isOrLogic := false, isAllowEffect := true } := by
    unfold abacCompile
    rw [show cstr matchAllRules = matchAllRules by decide, hread]
    rfl
  simp [vote, matchAllPolicy, StrategyType.registered, compileRules, hcomp, strategyEvaluate,
    evaluateCompiled, abacEvaluate, voteOf]

/-- Denies every request. -/
def denyAllPolicy : Policy where
  id := 2
  name := lit "freeze"
  strategyType := .abac
  effect := .deny
  priority := 100
  rules := denyAllRules
  status := .enabled

/-- Eighteen roles, each the child of the next; the user holds the first, the
allow stands on the first and the deny, of higher priority, on the last. -/
def deepStore : Store :=
  { memOpen with
    users := [sampleUser]
    roles := (List.range 18).map fun i =>
      { id := i + 1, name := [], parentRoleId := if i = 17 then 0 else i + 2, status := .active }
    policies := [matchAllPolicy, denyAllPolicy]
    userRoles := [(1, 1)]
    policyAssignments := [⟨1, .role, 1⟩, ⟨2, .role, 18⟩] }

/-- `perm_check_function(ctx, 1, "report:read", ...)`. -/
def reportContext : EvalContext := (CheckRequest.function (lit "report:read")).context sampleUser

theorem entries_deepStore : entries deepStore 1 = [matchAllPolicy] := by decide

/-- The climb ends after sixteen parents. -/
theorem deepStore_overlooks_deny :
    ¬ DenyComplete matchAllVendor emptyHeap deepStore reportContext := by
  refine not_denyComplete_of_cutOff ⟨⟨denyAllPolicy, ⟨by decide, .role, 18, ?_, ?_⟩, rfl⟩, ?_⟩
  · exact .roleAncestor (r := 1) (by decide) ⟨17, by decide⟩
  · decide
  · rw [show reportContext.userId = 1 from rfl, entries_deepStore]
    exact ⟨⟨matchAllPolicy, by simp, rfl⟩, fun p hp => by
      obtain rfl : p = matchAllPolicy := by simpa using hp
      exact ⟨by decide, by decide⟩⟩

/-! ## §5 Fresh engines -/

/-- Ids are handed out from 1 on. -/
def Store.PolicyIdsNonzero (s : Store) : Prop := ∀ p ∈ s.policies, p.id ≠ 0

/-- The decision of an engine with empty caches. -/
def freshDecision (V : Vendor) (h : Heap) (s : Store) (now : UInt64) (ctx : EvalContext) :
    Option Bool :=
  (evaluateInternal V h s permEngineCreate now ctx).map Prod.fst

/-- Resolved policies are stored ones. -/
theorem policiesOf_resolve (hids : s.PolicyIdsNonzero) (uid : Nat) :
    PoliciesOf s (policyResolveForUser s uid 64) := by
  intro p hp
  have hget := policyGetById_of_mem_resolve hp
  exact ⟨hget, hids p (mem_of_find?_eq_some hget)⟩

/-- A fresh engine misses in every cache. -/
theorem decidesOnStore_permEngineCreate (V : Vendor) (hids : s.PolicyIdsNonzero) (now : UInt64)
    (ctx : EvalContext) : DecidesOnStore V s permEngineCreate now ctx where
  miss := by simp [Engine.lookupL2, permEngineCreate]
  list := by simp [Engine.policiesFor, Engine.hitL1, permEngineCreate]
  rules := RuleCacheOk.permEngineCreate V (policiesOf_resolve hids ctx.userId)

/-- The decision of a fresh engine, in terms of the votes. -/
theorem freshDecision_eq_combine (hids : s.PolicyIdsNonzero) (now : UInt64) (ctx : EvalContext) :
    freshDecision V h s now ctx =
      combine ((policyResolveForUser s ctx.userId 64).map (vote V h s ctx)) false :=
  (decidesOnStore_permEngineCreate V hids now ctx).evaluate

/-- The decision of a check on an engine with empty caches. -/
def checkDecision (V : Vendor) (h : Heap) (s : Store) (now : UInt64) (uid : Nat)
    (req : CheckRequest) : Option Bool :=
  (permCheck V h { store := s, engine := permEngineCreate } now uid req).map (·.1.allowed)

/-- A check of a known user is a fresh decision on the user's context. -/
theorem checkDecision_eq {req : CheckRequest} {user : User} (hids : s.PolicyIdsNonzero)
    (hu : s.userGetById uid = some user) :
    checkDecision V h s now uid req =
      (freshDecision V (req.heap h) s now (req.context user)).bind fun b =>
        (req.context user).destroy.map fun _ => b := by
  refine permCheck_eq hu fun out he => ?_
  have hd := decidesOnStore_permEngineCreate V hids now (req.context user)
  exact sameView_evaluateInternal (by rw [hd.list]; exact idsConsistent_resolve _ _)
    (by rw [hd.list]; exact hd.rules) he

theorem evaluateInternal_permEngineCreate (V : Vendor) (h : Heap) (s : Store) (now : UInt64)
    (ctx : EvalContext) :
    evaluateInternal V h s permEngineCreate now ctx =
      decideOn V h s (if policyResolveForUser s ctx.userId 64 = [] then permEngineCreate
        else permEngineCreate.writeL1 ctx.userId now (policyResolveForUser s ctx.userId 64))
        now ctx (policyResolveForUser s ctx.userId 64) := by
  simp [evaluateInternal, Engine.lookupL2, Engine.hitL1, permEngineCreate]

/-! ## §6 Stores with a given resolution -/

/-- The store with only these policies, all assigned to one user directly. -/
def Store.withOwnPolicies (s : Store) (uid : Nat) (ps : List Policy) : Store :=
  { s with policies := ps, policyAssignments := ps.map fun p => ⟨p.id, .user, uid⟩ }

theorem filterMap_policyGetById : ∀ {ps : List Policy}, (∀ p ∈ ps,
    s.policyGetById p.id = some p) → (ps.map Policy.id).filterMap s.policyGetById = ps
  | [], _ => rfl
  | p :: ps, h => by
    rw [List.map_cons, List.filterMap_cons_some (h p (List.mem_cons_self ..)),
      filterMap_policyGetById fun q hq => h q (List.mem_cons_of_mem _ hq)]

theorem find?_id_of_nodup : ∀ {ps : List Policy} {p : Policy}, (ps.map Policy.id).Nodup →
    p ∈ ps → ps.find? (fun q => q.id == p.id) = some p
  | q :: ps, p, hnd, hp => by
    rw [List.map_cons, List.nodup_cons] at hnd
    rcases List.mem_cons.mp hp with rfl | hp'
    · simp
    · have hne : q.id ≠ p.id := fun he => hnd.1 (he ▸ mem_map.mpr ⟨p, hp', rfl⟩)
      rw [find?_cons_of_neg (by simpa using hne)]
      exact find?_id_of_nodup hnd.2 hp'

/-- Any list of at most 64 policies is what some store resolves. -/
theorem entries_withOwnPolicies (hnd : (ps.map Policy.id).Nodup) (hlen : ps.length ≤ 64) :
    entries (s.withOwnPolicies uid ps) uid = ps := by
  have hget : ∀ p ∈ ps, (s.withOwnPolicies uid ps).policyGetById p.id = some p :=
    fun p hp => find?_id_of_nodup hnd hp
  have hown : targetEntries (s.withOwnPolicies uid ps) .user uid = ps := by
    have hids : (s.withOwnPolicies uid ps).getTargetPolicies .user uid 64 = ps.map Policy.id := by
      unfold Store.getTargetPolicies Store.withOwnPolicies
      rw [filter_eq_self.mpr, map_map, take_of_length_le (by simpa using hlen)]
      · rfl
      · intro a ha
        obtain ⟨p, -, rfl⟩ := mem_map.mp ha
        simp
    unfold targetEntries
    rw [hids, filterMap_policyGetById hget]
  have hother : ∀ {tt tid}, tt ≠ .user → targetEntries (s.withOwnPolicies uid ps) tt tid = [] := by
    intro tt tid htt
    have hids : (s.withOwnPolicies uid ps).getTargetPolicies tt tid 64 = [] := by
      unfold Store.getTargetPolicies Store.withOwnPolicies
      rw [filter_eq_nil_iff.mpr]
      · rfl
      · intro a ha
        obtain ⟨p, -, rfl⟩ := mem_map.mp ha
        simp [Ne.symm htt]
    unfold targetEntries
    rw [hids]
    rfl
  have hflat : ∀ {tt anc} (ids : List Nat), tt ≠ .user →
      ids.flatMap (hierarchyEntries (s.withOwnPolicies uid ps) tt anc) = [] := by
    intro tt anc ids htt
    rw [flatMap_eq_nil_iff]
    intro x _
    unfold hierarchyEntries
    rw [flatMap_eq_nil_iff]
    exact fun y _ => hother htt
  unfold entries
  rw [hown, hflat _ (by decide), hflat _ (by decide), append_nil, append_nil]

/-- The same after sorting. -/
theorem resolve_withOwnPolicies_perm (hnd : (ps.map Policy.id).Nodup) (hlen : ps.length ≤ 64) :
    (policyResolveForUser (s.withOwnPolicies uid ps) uid 64).Perm ps := by
  have hperm := policyResolveForUser_perm (s.withOwnPolicies uid ps) uid
  rw [entries_withOwnPolicies hnd hlen, take_of_length_le hlen] at hperm
  exact hperm

/-- Votes do not depend on how policies are assigned. -/
theorem vote_withOwnPolicies (V : Vendor) (h : Heap) (s : Store) (uid : Nat) (ps : List Policy)
    (ctx : EvalContext) : vote V h (s.withOwnPolicies uid ps) ctx = vote V h s ctx := by
  refine vote_store_congr ?_
  exact userHasRole_congr rfl rfl

end SsoSystem
