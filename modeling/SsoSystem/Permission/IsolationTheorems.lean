/-
SsoSystem.Permission.IsolationTheorems — what policies of one strategy do to
the checks of another.

The engine does not know which checker built a request: every policy of the
user is evaluated on the parameter union, whatever its strategy. Two stores
whose policies for a user differ only in other strategies are compared.
`isolated_iff` says exactly when a check returns one decision on both, in terms
of the votes the foreign policies of the two stores cast on the request:
a foreign vote does no harm if an own policy denies anyway, if the foreign
policies of both stores deny, if none denies and an allow is there in both or
in neither, or if the denies of one meet nothing that allows in the other.
-/
import SsoSystem.Permission.ResolveTheorems

namespace SsoSystem

open CMem DenyOverride List Option CheckRequest

/-! ## §1 Two stores -/

/-- The two stores have the same record of the user, the same roles and the same roles of the
user, and the user's resolved policies differ only in strategies other than `t`. -/
structure DifferInOthers (t : StrategyType) (uid : Nat) (s s' : Store) : Prop where
  user : s.userGetById uid = s'.userGetById uid
  roles : s.roles = s'.roles
  userRoles : s.getUserRoles uid 64 = s'.getUserRoles uid 64
  policies : (policyResolveForUser s uid 64).filter (fun p => p.strategyType = t) =
    (policyResolveForUser s' uid 64).filter fun p => p.strategyType = t

/-- The check returns one decision on both stores. -/
def Isolated (V : Vendor) (h : Heap) (s s' : Store) (now : UInt64) (uid : Nat)
    (req : CheckRequest) : Prop :=
  ∃ b, checkDecision V h s now uid req = some b ∧ checkDecision V h s' now uid req = some b

section Votes

variable (V : Vendor) (h : Heap) (user : User) (req : CheckRequest) (s : Store)

/-- How a policy votes on the request. -/
def requestVote : Policy → Vote := vote V (req.heap h) s (req.context user)

/-- The votes of the user's policies of the check's own strategy. -/
def ownVotes : List Vote :=
  ((policyResolveForUser s user.id 64).filter fun p => p.strategyType = req.strategy).map
    (requestVote V h user req s)

/-- The votes of the user's policies of the other strategies. -/
def foreignVotes : List Vote :=
  ((policyResolveForUser s user.id 64).filter fun p => p.strategyType ≠ req.strategy).map
    (requestVote V h user req s)

/-- No policy in front of the first one that denies fails to return. -/
def AllReturn : Prop :=
  .stuck ∉ ((policyResolveForUser s user.id 64).map (requestVote V h user req s)).takeWhile
    fun v => v ≠ .deny

end Votes

/-- The foreign votes of two stores decide nothing beside the same own votes. -/
inductive ForeignHarmless (own f f' : List Vote) : Prop where
  | ownDeny (h : .deny ∈ own)
  | bothDeny (h : .deny ∈ f) (h' : .deny ∈ f')
  | noneDenies (h : .deny ∉ f) (h' : .deny ∉ f')
      (hallow : .allow ∈ own ∨ (.allow ∈ f ↔ .allow ∈ f'))
  | deniesNothing (h : .deny ∈ f) (hown : .allow ∉ own) (h' : .allow ∉ f')
  | deniesNothing' (h' : .deny ∈ f') (hown : .allow ∉ own) (h : .allow ∉ f)

/-! ## §2 The exact condition -/

variable {V : Vendor} {h : Heap} {user : User} {req : CheckRequest} {s s' : Store} {uid : Nat}

/-- A policy of a user is one of the check's strategy or a foreign one. -/
theorem mem_votes_iff (v : Vote) :
    v ∈ (policyResolveForUser s user.id 64).map (requestVote V h user req s) ↔
      v ∈ ownVotes V h user req s ∨ v ∈ foreignVotes V h user req s := by
  have hsplit : ∀ p : Policy, p ∈ policyResolveForUser s user.id 64 ↔
      p ∈ (policyResolveForUser s user.id 64).filter (fun p => p.strategyType = req.strategy) ∨
      p ∈ (policyResolveForUser s user.id 64).filter (fun p => p.strategyType ≠ req.strategy) := by
    intro p
    simp only [mem_filter, decide_eq_true_eq, ← and_or_left]
    exact (and_iff_left (em _)).symm
  simp only [ownVotes, foreignVotes, List.mem_map, hsplit, or_and_right, exists_or]

/-- A check that comes back allows exactly if some policy of the user allows and none denies. -/
theorem checkDecision_eq_some_iff (hids : s.PolicyIdsNonzero)
    (hu : s.userGetById uid = some user) (now : UInt64) (b : Bool) :
    checkDecision V h s now uid req = some b ↔
      (req.context user).destroy.isSome ∧ AllReturn V h user req s ∧
      b = decide ((.allow ∈ ownVotes V h user req s ∨ .allow ∈ foreignVotes V h user req s) ∧
        ¬ (.deny ∈ ownVotes V h user req s ∨ .deny ∈ foreignVotes V h user req s)) := by
  have hid : (req.context user).userId = user.id := by cases req <;> rfl
  rw [checkDecision_eq hids hu, freshDecision_eq_combine hids, hid, bind_eq_some_iff]
  simp only [map_eq_some_iff, combine_eq_some_iff, ← mem_votes_iff, AllReturn]
  constructor
  · rintro ⟨c, ⟨hret, hc⟩, ctx, hctx, rfl⟩
    exact ⟨hctx ▸ rfl, hret, by simpa [requestVote] using hc⟩
  · rintro ⟨hd, hret, hb⟩
    obtain ⟨ctx, hctx⟩ := isSome_iff_exists.mp hd
    exact ⟨b, ⟨hret, by simpa [requestVote] using hb⟩, ctx, hctx, rfl⟩

/-- The own policies of the check vote the same on both stores. -/
theorem DifferInOthers.ownVotes_eq (hdiff : DifferInOthers req.strategy user.id s s') :
    ownVotes V h user req s = ownVotes V h user req s' := by
  have hid : (req.context user).userId = user.id := by cases req <;> rfl
  have hvote : requestVote V h user req s = requestVote V h user req s' :=
    vote_store_congr (hid ▸ userHasRole_congr hdiff.roles hdiff.userRoles)
  rw [ownVotes, ownVotes, hdiff.policies, hvote]

/-- Two decisions by deny-override agree exactly if the foreign votes are harmless. -/
theorem foreignHarmless_iff (own f f' : List Vote) : ForeignHarmless own f f' ↔
    (((.allow ∈ own ∨ .allow ∈ f) ∧ ¬ (.deny ∈ own ∨ .deny ∈ f)) ↔
      (.allow ∈ own ∨ .allow ∈ f') ∧ ¬ (.deny ∈ own ∨ .deny ∈ f')) := by
  constructor
  · rintro (_ | _ | _ | _ | _) <;> tauto
  · intro heq
    by_cases hown : .deny ∈ own
    · exact .ownDeny hown
    · by_cases hf : .deny ∈ f <;> by_cases hf' : .deny ∈ f'
      · exact .bothDeny hf hf'
      · exact .deniesNothing hf (by tauto) (by tauto)
      · exact .deniesNothing' hf' (by tauto) (by tauto)
      · exact .noneDenies hf hf' (by tauto)

/-- **Isolation of the strategies.** A check returns the same decision on two stores that differ
in foreign policies exactly if it returns on both and the foreign votes are harmless. -/
theorem isolated_iff (hids : s.PolicyIdsNonzero) (hids' : s'.PolicyIdsNonzero)
    (hu : s.userGetById uid = some user) (hdiff : DifferInOthers req.strategy uid s s')
    (now : UInt64) :
    Isolated V h s s' now uid req ↔
      (req.context user).destroy.isSome ∧ AllReturn V h user req s ∧ AllReturn V h user req s' ∧
      ForeignHarmless (ownVotes V h user req s) (foreignVotes V h user req s)
        (foreignVotes V h user req s') := by
  obtain rfl : user.id = uid := by simpa using find?_some hu
  have hu' : s'.userGetById user.id = some user := hdiff.user ▸ hu
  simp only [Isolated, checkDecision_eq_some_iff hids hu, checkDecision_eq_some_iff hids' hu',
    foreignHarmless_iff, ← hdiff.ownVotes_eq]
  constructor
  · rintro ⟨b, ⟨hd, hret, rfl⟩, -, hret', heq⟩
    exact ⟨hd, hret, hret', decide_eq_decide.mp heq⟩
  · rintro ⟨hd, hret, hret', heq⟩
    exact ⟨_, ⟨hd, hret, rfl⟩, hd, hret', decide_eq_decide.mpr heq⟩

/-! ## §3 A function check and an attribute policy -/

def anyFunctionRules : Bytes := lit "\x7b\"functions\":[\x7b\"code\":\"*\"\x7d]\x7d"

/-- Allows every function code. -/
def anyFunctionPolicy : Policy :=
  { matchAllPolicy with id := 2, strategyType := .functional, rules := anyFunctionRules }

def plainVendor : Vendor := .ofTable
  [(matchAllRules, .obj [(lit "conditions", .arr [])]),
    (anyFunctionRules, .obj [(lit "functions", .arr [.obj [(lit "code", .str (lit "*"))]])])]

def soleUser : User := { id := 1, username := lit "alice", phone := [], status := .active }

/-- A store whose only user has just these policies. -/
def soleUserStore (ps : List Policy) : Store :=
  { memOpen with users := [soleUser] }.withOwnPolicies 1 ps

/-- `perm_check_function(ctx, 1, "report:read", ...)`. -/
def reportRead : CheckRequest := .function (lit "report:read")

/-- The attribute policy makes no difference to a user whom a functional policy allows. -/
theorem allowedReport_isolated : Isolated plainVendor emptyHeap
    (soleUserStore [anyFunctionPolicy]) (soleUserStore [anyFunctionPolicy, matchAllPolicy]) 0 1
      reportRead := by
  have hids : (soleUserStore [anyFunctionPolicy]).PolicyIdsNonzero := by
    unfold Store.PolicyIdsNonzero
    decide +kernel
  have hids' : (soleUserStore [anyFunctionPolicy, matchAllPolicy]).PolicyIdsNonzero := by
    unfold Store.PolicyIdsNonzero
    decide +kernel
  have hdiff : DifferInOthers reportRead.strategy 1 (soleUserStore [anyFunctionPolicy])
      (soleUserStore [anyFunctionPolicy, matchAllPolicy]) :=
    ⟨rfl, rfl, rfl, by decide +kernel⟩
  have hu : (soleUserStore [anyFunctionPolicy]).userGetById 1 = some soleUser := rfl
  refine (isolated_iff hids hids' hu hdiff 0).mpr ⟨by decide +kernel, ?_, ?_,
    .noneDenies (by decide +kernel) (by decide +kernel) (.inl (by decide +kernel))⟩
  · unfold AllReturn
    decide +kernel
  · unfold AllReturn
    decide +kernel

/-- To a user without policies it makes one. -/
theorem reportCheck_not_isolated :
    DifferInOthers reportRead.strategy 1 (soleUserStore []) (soleUserStore [matchAllPolicy]) ∧
    ¬ Isolated plainVendor emptyHeap (soleUserStore []) (soleUserStore [matchAllPolicy]) 0 1
      reportRead := by
  refine ⟨⟨rfl, rfl, rfl, by decide +kernel⟩, ?_⟩
  rintro ⟨b, hb, hb'⟩
  have hdeny : checkDecision plainVendor emptyHeap (soleUserStore []) 0 1 reportRead = some false :=
    by decide +kernel
  have hallow : checkDecision plainVendor emptyHeap (soleUserStore [matchAllPolicy]) 0 1
      reportRead = some true := by decide +kernel
  rw [hdeny] at hb
  rw [hallow, ← hb] at hb'
  cases hb'

end SsoSystem
