/-
SsoSystem.Http.Escalation — what a logged-in user can change.

No management handler asks the permission engine: the routes are marked as
needing authentication, and that is all. So a user whom no policy allows
anything can give themselves a role (`selfAssign_escalates`).
-/
import SsoSystem.Http.Unauthenticated
import SsoSystem.Permission.CoherenceTheorems
import SsoSystem.Permission.EngineIndependence
import SsoSystem.Storage.IntegrityTheorems

namespace SsoSystem

open CMem Handling Run Option Server

variable {P : Platform} {cfg : ServerConfig} {env : Moment} {s s' : Server} {a : Answer}
    {e : HttpEvent}
  {uid : Nat}

/-! ## §1 Everything but the own record -/

/-- Roles, groups, policies, memberships, assignments, clients and the other users are the
same, and no command went to the cluster. -/
structure OthersSame (uid : Nat) (s s' : Server) : Prop where
  store : s'.sys.store = { s.sys.store with users := s'.sys.store.users }
  ids : s'.sys.store.users.map User.id = s.sys.store.users.map User.id
  others : s'.sys.store.users.filter (fun u => u.id ≠ uid) = s.sys.store.users.filter fun u =>
    u.id ≠ uid
  clients : s'.grants.clients = s.grants.clients
  raft : s'.raft = s.raft

/-- A request that leaves these three tables alone leaves everyone else alone. -/
theorem OthersSame.of_same (h : ∀ t ∈ [Table.records, .clients, .raftLog], t.Same s s') :
    OthersSame uid s s' := by
  have hstore : s'.sys.store = s.sys.store := h .records (by decide)
  refine ⟨?_, ?_, ?_, h .clients (by decide), h .raftLog (by decide)⟩ <;> rw [hstore]

theorem OthersSame.refl (uid : Nat) (s : Server) : OthersSame uid s s :=
    .of_same fun t _ => .refl t s

theorem OthersSame.trans {s₁ s₂ s₃ : Server} (h : OthersSame uid s₁ s₂)
    (h' : OthersSame uid s₂ s₃) :
    OthersSame uid s₁ s₃ where
  store := by rw [h'.store, h.store]
  ids := h'.ids.trans h.ids
  others := h'.others.trans h.others
  clients := h'.clients.trans h.clients
  raft := h'.raft.trans h.raft

/-- Replacing a user leaves the list of the others as it is. -/
theorem filter_replaceFirst (x : User) (l : List User) :
    (replaceFirst (fun y => y.id == x.id) x l).filter (fun y => y.id ≠ x.id) =
      l.filter fun y => y.id ≠ x.id := by
  induction l with
  | nil => rfl
  | cons y ys ih =>
    rw [replaceFirst]
    split
    · next hy => simp [beq_iff_eq.mp hy]
    · next hy =>
      have hne : y.id ≠ x.id := by simpa using hy
      simpa [hne] using ih

/-- A management call fails and leaves the server, or writes the store and invalidates. -/
theorem manage_snd (m : Mutation) :
    (s.manage m).2 = s ∨ ∃ store, m.storeWrite s.sys.store = .ok store ∧
      (s.manage m).2 = { s with sys := ⟨store, m.invalidation.apply s.sys.engine⟩ } := by
  unfold manage Mutation.run mutate
  cases hw : m.storeWrite s.sys.store with
  | error err => cases err <;> exact .inl rfl
  | ok store => exact .inr ⟨store, rfl, rfl⟩

/-- An update of one user's record is an update of that record only. -/
theorem othersSame_userUpdate (u : User) : OthersSame u.id s (s.manage (.userUpdate u)).2 := by
  rcases manage_snd (s := s) (.userUpdate u) with hsame | ⟨store, hwrite, hs⟩
  · rw [hsame]
    exact .refl _ _
  · obtain ⟨-, rfl⟩ := ok_of_then hwrite
    rw [hs]
    exact ⟨rfl, map_replaceFirst u _, filter_replaceFirst u _, rfl, rfl⟩

/-- The update is the one write of such a handler. -/
theorem exec_userUpdate {u : User} {k : Except SsoError Nat → Handling}
    (h : (Prog.call (.manage (.userUpdate u)) k).exec Server.perform s = some (a, s'))
    (hid : u.id = uid)
    (hk : ∀ r, (k r).Bounded [] false) : OthersSame uid s s' := by
  have hrest := ((hk _).exec_same h).1
  rw [← hid]
  exact (othersSame_userUpdate u).trans (.of_same fun t _ => hrest t List.not_mem_nil)

/-! ## §2 The handlers that update the caller -/

theorem othersSame_of_fail {status : Nat} {message : String}
    (h : (fail status message).exec Server.perform s = some (a, s')) : OthersSame uid s s' := by
  obtain ⟨-, rfl⟩ := exec_fail h
  exact .refl _ _

variable {auth : AuthUser} {req : Request} {store : Store}

/-- Enabling the second factor writes the caller's record. -/
theorem handleMfaEnable_othersSame
    (h : (handleMfaEnable P env req auth).exec Server.perform s = some (a, s')) :
    OthersSame auth.1.id s s' := by
  unfold handleMfaEnable at h
  repeat' split at h
  · exact othersSame_of_fail h
  · exact othersSame_of_fail h
  · refine exec_userUpdate h rfl fun r => ?_
    cases r with
    | ok id => exact bounded_ok _
    | error err => exact bounded_fail _ _
  · exact othersSame_of_fail h

/-- So does a new password. -/
theorem handleChangePassword_othersSame
    (h : (handleChangePassword env req auth).exec Server.perform s = some (a, s')) :
    OthersSame auth.1.id s s' := by
  unfold handleChangePassword at h
  repeat' split at h
  · exact othersSame_of_fail h
  · cases h
    exact .refl _ _
  · exact othersSame_of_fail h
  · rw [Prog.exec, perform] at h
    split at h
    · exact othersSame_of_fail h
    · next user huser =>
      have hid : user.id = _ := Store.userGetById_id huser
      refine exec_userUpdate h hid fun r => ?_
      cases r with
      | ok id => exact bounded_ok _
      | error err => exact bounded_fail _ _

/-- So does registering a credential. -/
theorem handleWebauthnRegister_othersSame
    (h : (handleWebauthnRegister P cfg req auth).exec Server.perform s = some (a, s')) :
    OthersSame auth.1.id s s' := by
  unfold handleWebauthnRegister at h
  repeat' split at h
  · exact othersSame_of_fail h
  · exact othersSame_of_fail h
  · exact othersSame_of_fail h
  · rw [Prog.exec, perform] at h
    split at h
    · cases h
      exact .refl _ _
    · next user huser =>
      have hid : user.id = _ := Store.userGetById_id huser
      exact exec_userUpdate h hid fun _ _ => rfl
  · exact othersSame_of_fail h

/-- `PUT /users/:id` writes the record of the id in the path, whoever calls. -/
theorem handleUpdateUser_othersSame {req : HttpRequest}
    (h : (handleUpdateUser req).exec Server.perform s = some (a, s')) :
    OthersSame (extractPathId req.path "/users/") s s' := by
  unfold handleUpdateUser at h
  dsimp only at h
  split at h
  · exact othersSame_of_fail h
  · rw [Prog.exec, perform] at h
    split at h
    · exact othersSame_of_fail h
    · next user huser =>
      have hid : user.id = _ := Store.userGetById_id huser
      refine exec_userUpdate h hid fun r => ?_
      cases r with
      | ok id => exact bounded_ok _
      | error err => exact bounded_failWith _

/-! ## §3 One request -/

/-- The management endpoints that write. -/
def ApiHandler.manages : ApiHandler → Bool
  | createUser | updateUser | deleteUser
  | createRole | updateRole | deleteRole | assignRole | unassignRole
  | createPolicy | updatePolicy | deletePolicy | assignPolicy | unassignPolicy
  | createGroup | updateGroup | deleteGroup | addGroupMember | removeGroupMember
  | createClient | updateClient | deleteClient => true
  | _ => false

/-- The request is authenticated as this user. -/
def AsUser (P : Platform) (uid : Nat) (s : Server) (e : HttpEvent) : Prop :=
  ∃ auth, AuthenticatedAs P s e auth ∧ auth.1.id = uid

/-- No management write but an update of the own record, no registration, no SMS login that
creates its user, and no command for the cluster. -/
structure LeavesOthers (uid : Nat) (s : Server) (e : HttpEvent) : Prop where
  unmanaged : ∀ h, handlerOf e.req = some h → h.manages = true →
    h = .updateUser ∧ extractPathId e.req.path "/users/" = uid
  unregistered : handlerOf e.req ≠ some .register
  knownPhone : handlerOf e.req = some .loginBySms → ∀ phone,
    reqJsonStrValue e.req.toRequest (lit "phone") = some phone →
      (s.sys.store.userGetByPhone phone).isSome
  noCommand : ¬CarriesCommand s e

/-- A login by SMS registers nobody if the phone has a user. -/
theorem smsLogin_othersSame (h : SmsEffect P env req s a s')
    (hknown : ∀ phone, reqJsonStrValue req (lit "phone") = some phone →
      (s.sys.store.userGetByPhone phone).isSome) : OthersSame uid s s' := by
  have hphone : ∀ {phone user t}, SmsCodeRight env s req phone → PhoneUser env phone s user t →
      OthersSame uid s t := by
    rintro phone user t ⟨code, expected, hphone, -⟩ huser
    cases huser with
    | found user huser => exact ⟨rfl, rfl, rfl, rfl, rfl⟩
    | created id sys hnone hsys hid =>
      have hsome := hknown phone hphone
      rw [hnone] at hsome
      cases hsome
  cases h with
  | untouched | refused => exact .refl _ _
  | spent status message phone hright => exact ⟨rfl, rfl, rfl, rfl, rfl⟩
  | refusedUser status message phone user t hright huser => exact hphone hright huser
  | loggedIn phone user t tok hright huser htok => exact hphone hright huser

/-- One handler, case by case as `LeavesOthers` allows them. -/
theorem handle_othersSame {auth : Option AuthUser} {h : ApiHandler} (hh : handlerOf e.req = some h)
    (hleaves : LeavesOthers uid s e) (hauth : ∀ u ∈ auth, u.1.id = uid)
    (hexec : (h.handle P cfg e.env e.req auth).exec Server.perform s = some (a, s')) :
    OthersSame uid s s' := by
  have hraft : s'.raft = s.raft := (raft_iff hh hexec).mpr hleaves.noCommand
  have hsame := (handle_exec hexec).1
  have hown : ∀ {k : AuthUser → Handling}, (∀ u, (k u).exec perform s = some (a, s') →
      OthersSame u.1.id s s') → (withAuth auth k).exec perform s = some (a, s') →
      OthersSame uid s s' := by
    intro k hk hexec
    cases auth with
    | none => cases hexec
    | some u => exact hauth u rfl ▸ hk u hexec
  have hmanaged := hleaves.unmanaged h hh
  cases h with
  | register => exact absurd hh hleaves.unregistered
  | loginBySms => exact smsLogin_othersSame (handleLoginBySms_effect hexec) (hleaves.knownPhone hh)
  | mfaEnable => exact hown (fun u => handleMfaEnable_othersSame) hexec
  | webauthnRegister => exact hown (fun u => handleWebauthnRegister_othersSame) hexec
  | changePassword => exact hown (fun u => handleChangePassword_othersSame) hexec
  | updateUser => exact (hmanaged rfl).2 ▸ handleUpdateUser_othersSame hexec
  | raftAppendEntries | raftExecute =>
    refine .of_same fun t ht => ?_
    cases t with
    | raftLog => exact hraft
    | _ => exact hsame _ (by decide)
  | _ =>
    -- Another management endpoint, or one that writes none of these tables.
    first
    | exact absurd (hmanaged rfl).1 nofun
    | exact .of_same fun t ht => hsame t (by revert t; decide)

/-- One such request of the user leaves everything but the own record. -/
theorem othersSame_of_serve (has : AsUser P uid s e) (hleaves : LeavesOthers uid s e)
    (hserve : s.serve P cfg e = some (a, s')) : OthersSame uid s s' := by
  obtain ⟨auth, hauth, hid⟩ := has
  cases serve_served hserve with
  | refused => exact .refl _ _
  | unauthenticated _ route hroute hopen hexec =>
    exact handle_othersSame (handlerOf_eq hroute) hleaves (fun u hu => by cases hu) hexec
  | authenticated _ route auth' hroute hneeds hauth' hexec =>
    refine handle_othersSame (handlerOf_eq hroute) hleaves ?_ hexec
    rintro u ⟨⟩
    rw [AuthenticatedAs, hauth] at hauth'
    cases hauth'
    exact hid

/-! ## §4 Decisions -/

/-- No strategy reads the users table. -/
theorem evaluateInternal_users {V : Vendor} {heap : Heap} (users : List User) {eng : Engine}
    {now : UInt64} {ctx : EvalContext} :
    evaluateInternal V heap { store with users } eng now ctx = evaluateInternal V heap store eng now
      ctx := by
  have hrole : userHasRole { store with users } ctx.userId = userHasRole store ctx.userId :=
    userHasRole_congr rfl rfl
  have hdecide : ∀ eng ps, decideOn V heap { store with users } eng now ctx ps =
      decideOn V heap store eng now ctx ps := by
    intro eng ps
    unfold decideOn
    rw [evalLoop_store_congr ps hrole]
  unfold evaluateInternal
  simp only [hdecide]
  rfl

/-- Whether a user exists depends on the ids alone. -/
theorem map_id_userGetById :
    (store.userGetById uid).map User.id = (store.users.map User.id).find? (· == uid) := by
  rw [List.find?_map]
  rfl

/-- So the caller's own record does not count in a decision. -/
theorem checkDecision_othersSame (h : OthersSame uid s s') (V : Vendor) (heap : Heap) (now : UInt64)
    (check : CheckRequest) :
    checkDecision V heap s'.sys.store now uid check = checkDecision V heap s.sys.store now uid
      check := by
  have hid : (s'.sys.store.userGetById uid).map User.id = (s.sys.store.userGetById uid).map
    User.id := by
    rw [map_id_userGetById, map_id_userGetById, h.ids]
  have heval : ∀ {ctx}, evaluateInternal V (check.heap heap) s'.sys.store permEngineCreate now ctx =
      evaluateInternal V (check.heap heap) s.sys.store permEngineCreate now ctx := by
    rw [h.store]
    exact evaluateInternal_users _
  unfold checkDecision permCheck
  cases hu : s.sys.store.userGetById uid with
  | none =>
    rw [hu] at hid
    simp only [map_eq_none_iff.mp hid]
    rfl
  | some user =>
    rw [hu] at hid
    obtain ⟨user', hu', hsame⟩ := map_eq_some_iff.mp hid
    have hctx : check.context user' = check.context user := by
      unfold CheckRequest.context evalContextInit
      rw [hsame]
    simp only [hu', heval, hctx]
    cases evaluateInternal V (check.heap heap) s.sys.store permEngineCreate now
      (check.context user) with
    | none => rfl
    | some out => simp [Function.comp_def]

/-! ## §5 Runs -/

/-- In a run of requests of one user, none of which writes for others, nothing changes but the
user's own record, and every permission check about the user is decided as before. -/
theorem othersSame_of_run (P : Platform) (cfg : ServerConfig) (uid : Nat) (es : List HttpEvent)
    (s s' : Server)
    (hsteps : Along (Server.step P cfg) (fun s e => AsUser P uid s e ∧ LeavesOthers uid s e) es s)
    (hrun : run (Server.step P cfg) es s = some s') : OthersSame uid s s' ∧ ∀ V heap now check,
      checkDecision V heap s'.sys.store now uid check = checkDecision V heap s.sys.store now uid
        check := by
  have hstep : ∀ t e t', OthersSame uid s t → (AsUser P uid t e ∧ LeavesOthers uid t e) →
      step P cfg t e = some t' → OthersSame uid s t' := by
    intro t e t' ht hcond hstep
    obtain ⟨⟨a, _⟩, hserve, rfl⟩ := map_eq_some_iff.mp hstep
    exact ht.trans (othersSame_of_serve hcond.1 hcond.2 hserve)
  have hsame : OthersSame uid s s' := invariant_of_run hstep (.refl uid s) hsteps hrun
  exact ⟨hsame, checkDecision_othersSame hsame⟩

/-- A user without policies, and a role that may do everything. -/
def staffServer : Server :=
  { sampleServer [sampleUser] with
    sys.store := { memOpen with
      users := [sampleUser]
      roles := [⟨1, lit "staff", 0, .active⟩]
      policies := [matchAllPolicy]
      policyAssignments := [⟨1, .role, 1⟩] } }

/-- A request of user 1. -/
def userRequest (method : HttpMethod) (path body : String) (json : Json) : HttpEvent :=
  ⟨sampleMoment 1,
    { plainRequest method path (some body) with authToken := sampleToken 1, json := some json }⟩

def ownUpdate : HttpEvent :=
  userRequest .put "/api/v1/users/1" "\x7b\"email\":\"a@b\"\x7d"
    (.obj [(lit "email", .str (lit "a@b"))])

/-- Updating the own record. -/
theorem ownUpdate_othersSame :
    ∃ s', run (Server.step samplePlatform sampleConfig) [ownUpdate] staffServer = some s' ∧
      (s'.sys.store.userGetById 1).map User.email = some (lit "a@b") ∧
        OthersSame 1 staffServer s' := by
  have hrun : (run (step samplePlatform sampleConfig) [ownUpdate] staffServer).map
      (fun s' => (s'.sys.store.userGetById 1).map User.email) =
        some (some (lit "a@b")) := by decide +kernel
  obtain ⟨s', hs', hemail⟩ := map_eq_some_iff.mp hrun
  have hhandler : handlerOf ownUpdate.req = some .updateUser := by decide +kernel
  have hleaves : LeavesOthers 1 staffServer ownUpdate := by
    refine ⟨fun h hh _ => ?_, ?_, ?_, nofun⟩
    · rw [hhandler] at hh
      cases hh
      exact ⟨rfl, by decide⟩
    · rw [hhandler]
      nofun
    · rw [hhandler]
      nofun
  have has : AsUser samplePlatform 1 staffServer ownUpdate :=
    authenticatedAs_of_eq (by decide +kernel)
  have hsteps : Along (step samplePlatform sampleConfig)
      (fun s e => AsUser samplePlatform 1 s e ∧ LeavesOthers 1 s e) [ownUpdate] staffServer :=
    ⟨⟨has, hleaves⟩, fun _ _ => trivial⟩
  exact ⟨s', hs', hemail, (othersSame_of_run _ _ 1 _ _ _ hsteps hs').1⟩

/-- The user gives themselves the role. -/
def selfAssign : HttpEvent :=
  userRequest .post "/api/v1/roles/1/assign" "\x7b\"user_id\":1\x7d"
    (.obj [(lit "user_id", .num (lit "1"))])

theorem selfAssign_escalates :
    policyResolveForUser staffServer.sys.store 1 64 = [] ∧
      AsUser samplePlatform 1 staffServer selfAssign ∧
      checkDecision matchAllVendor emptyHeap staffServer.sys.store 0 1 reportRequest = some false ∧
      ∃ s', Server.step samplePlatform sampleConfig staffServer selfAssign = some s' ∧
        s'.sys.store.userRoles ≠ staffServer.sys.store.userRoles ∧
        checkDecision matchAllVendor emptyHeap s'.sys.store 0 1 reportRequest = some true := by
  refine ⟨by decide, authenticatedAs_of_eq (by decide +kernel), by decide +kernel, ?_⟩
  exact exists_some_of_any (by decide +kernel) fun _ _ h => h

end SsoSystem
