/-
SsoSystem.Http.Revocation — revocation on several nodes over one storage.

A token is taken back in two places: a row of the storage with the jti and an
expiry (`mem_jti_revoke`; the SQL backends do the same), and the memory of the
node that was asked, its list of jtis or its nonce of the user. The other
nodes, and the same node after a restart, have the row alone.

`token_bump_nonce` writes no row at all, and the eviction of a session writes
one that has expired already, over one that may have been good.
-/
import SsoSystem.Http.SessionCap
import SsoSystem.Storage.GrantTheorems

namespace SsoSystem

open CMem Run List Option TokenManager

/-! ## §1 Nodes -/

/-- The shared storage, the managers of the nodes that are up, the latest time, the tokens
issued by any node, and those whose revoking call has returned. -/
structure Cluster where
  store : Store
  revokedJtis : List (Bytes × Int64)
  nodes : List (Nat × TokenManager)
  now : Int64
  issued : List Token
  revoked : List Token

/-- A call on the token manager of a node. The session of a login is registered, and the
oldest one may be evicted; logout and OAuth revocation verify the token first. -/
inductive NodeCall where
  | issue (args : IssueArgs) (draw : IssueEnv)
  | registerSession (uid : UInt64) (jti : Bytes)
  | logout (req : Request)
  | oauthRevoke (text : Bytes)
  | logoutAll (uid : UInt64)

/-- A node is started or started again, a node is called, or the users change. -/
inductive ClusterEvent where
  | boot (n : Nat) (secret : Bytes) (ttl : Int64)
  | call (n : Nat) (time : Int64) (call : NodeCall)
  | users (store : Store)

namespace Cluster

/-- No node has been started yet. -/
def start : Cluster where
  store := memOpen
  revokedJtis := []
  nodes := []
  now := 0
  issued := []
  revoked := []

variable (P : Platform) (e : Endpoint) (cl : Cluster) (n : Nat) (m : TokenManager) (time : Int64)

/-- What the acceptance paths of a node read. -/
def auth : AuthContext where
  tokens := m
  store := cl.store
  revokedJtis := cl.revokedJtis

def node? : Option TokenManager :=
  (cl.nodes.find? fun node => node.1 == n).map Prod.snd

def setNode : Cluster :=
  { cl with nodes := (n, m) :: cl.nodes.filter fun node => node.1 != n }

/-- `token_revoke` on a node; the issued tokens with this jti count as revoked. -/
def tokenRevoke (jti : Bytes) (expiresAt : Int64) : Cluster :=
  { cl.setNode n (m.revoke jti) with
    revokedJtis := memJtiRevoke cl.revokedJtis jti expiresAt
    revoked := (cl.issued.filter fun tok => tok.jti == cstr jti) ++ cl.revoked }

/-- The clock does not run back. -/
def tick : Cluster :=
  { cl with now := if cl.now ≤ time then time else cl.now }

/-- A call on the node `n` with the manager `m`; `none` when a token text cannot be read. -/
def perform :
    NodeCall → Option Cluster
  | .issue args draw =>
    match tokenIssue P.crypto m args draw with
    | .ok tok => some { cl with issued := tok :: cl.issued }
    | .error _ => some cl
  | .registerSession uid jti =>
    match (m.registerSession uid jti).2 with
    | none => some (cl.setNode n (m.registerSession uid jti).1)
    | some oldest => some (cl.tokenRevoke n (m.registerSession uid jti).1 oldest 0)
  | .logout req =>
    (authenticateRequest P.crypto P.dpop (cl.auth m) time req).map fun
      | .ok (_, tok) => cl.tokenRevoke n m tok.jti tok.expiresAt
      | .error _ => cl
  | .oauthRevoke text =>
    (tokenVerify P.crypto m time text).map fun
      | .ok tok => cl.tokenRevoke n m tok.jti tok.expiresAt
      | .error _ => cl
  | .logoutAll uid =>
    some { cl.setNode n (m.bumpNonce uid) with
      revoked := (cl.issued.filter fun tok => tok.userId == uid) ++ cl.revoked }

/-- A node that is down is not called, and a start that fails leaves the node down. -/
def step : ClusterEvent → Option Cluster
  | .boot n secret ttl =>
    match tokenManagerInit secret ttl with
    | .ok m => some (cl.setNode n m)
    | .error _ => some { cl with nodes := cl.nodes.filter fun node => node.1 != n }
  | .call n time call =>
    match (cl.tick time).node? n with
    | some m => (cl.tick time).perform P n m time call
    | none => some (cl.tick time)
  | .users store => some { cl with store }

/-! ## §2 The property and its conditions -/

/-- The memory of a node alone bars the token. -/
def Remembers (tok : Token) : Prop :=
  tok.jti ∈ m.jtis ∨ (e = .authenticateRequest ∧ tok.nonce < m.getNonce tok.userId)

/-- The storage bars the token until it expires. -/
def Listed (rows : List (Bytes × Int64)) (tok : Token) : Prop :=
  ∃ row ∈ rows, strEq row.1 tok.jti = true ∧ tok.expiresAt ≤ row.2

instance (tok : Token) : Decidable (Remembers e m tok) :=
  inferInstanceAs (Decidable (_ ∨ _))

instance (rows : List (Bytes × Int64)) (tok : Token) : Decidable (Listed rows tok) :=
  inferInstanceAs (Decidable (∃ row ∈ rows, _))

/-- What the rest of the call relies on, for a token that has not expired: a node is started
only when the storage bars it, a session is evicted only when the other nodes remember it, and
a user logs out everywhere only when every node then bars it. -/
def Covered : ClusterEvent → Prop
  | .boot _ _ _ => ∀ tok ∈ cl.revoked, cl.now < tok.expiresAt → Listed cl.revokedJtis tok
  | .call n time (.registerSession uid jti) =>
    ∀ m ∈ cl.node? n, ∀ oldest ∈ (m.registerSession uid jti).2, ∀ tok ∈ cl.issued,
      tok.jti = cstr oldest → (cl.tick time).now < tok.expiresAt →
        ∀ node ∈ cl.nodes, node.1 ≠ n → Remembers e node.2 tok
  | .call n time (.logoutAll uid) =>
    ∀ m ∈ cl.node? n, ∀ tok ∈ cl.issued, tok.userId = uid → (cl.tick time).now < tok.expiresAt →
      ∀ node ∈ (cl.setNode n (m.bumpNonce uid)).nodes, Remembers e node.2 tok ∨
        Listed cl.revokedJtis tok
  | _ => True

/-- The outside code: a text that verifies is that of an issued token, and no jti is drawn
twice. -/
def Ideal : ClusterEvent → Prop
  | .call n _ (.issue args draw) =>
    ∀ m ∈ cl.node? n, ∀ tok ∈ (tokenIssue P.crypto m args draw).toOption, ∀ old ∈ cl.issued,
      old.jti ≠ tok.jti
  | .call n time (.logout req) =>
    ∀ m ∈ cl.node? n, (tokenVerify P.crypto m time req.authToken).any Except.isOk = true →
      ∃ old ∈ cl.issued, old.tokenStr = req.authToken
  | .call n time (.oauthRevoke text) =>
    ∀ m ∈ cl.node? n, (tokenVerify P.crypto m time text).any Except.isOk = true →
      ∃ old ∈ cl.issued, old.tokenStr = text
  | _ => True

end Cluster

/-! ## §3 Rows -/

variable {jti : Bytes}

/-- A row of another jti stays. -/
theorem mem_memJtiRevoke {rows : List (Bytes × Int64)} {expiresAt : Int64}
    {row : Bytes × Int64} (hrow : row ∈ rows) (hne : strEq row.1 jti = false) :
    row ∈ memJtiRevoke rows jti expiresAt := by
  unfold memJtiRevoke
  split
  · clear * - hrow hne
    induction rows with
    | nil => cases hrow
    | cons r rows ih =>
      cases hr : strEq r.1 jti with
      | true =>
        simp only [replaceF_cons, hr, if_true]
        rcases mem_cons.mp hrow with rfl | hrow
        · rw [hr] at hne
          cases hne
        · exact mem_cons_of_mem _ hrow
      | false =>
        simp only [replaceF_cons, hr, Bool.false_eq_true, if_false]
        rcases mem_cons.mp hrow with rfl | hrow
        · exact mem_cons_self
        · exact mem_cons_of_mem _ (ih hrow)
  · exact mem_append_left _ hrow

/-- The jti has a row with the new expiry. -/
theorem exists_mem_memJtiRevoke (rows : List (Bytes × Int64)) (expiresAt : Int64)
    (hself : strlcpy 64 jti = jti) :
    ∃ row ∈ memJtiRevoke rows jti expiresAt, strEq row.1 jti = true ∧ row.2 = expiresAt := by
  unfold memJtiRevoke
  split
  · next hany =>
    induction rows with
    | nil => cases hany
    | cons r rows ih =>
      cases hr : strEq r.1 jti with
      | true =>
        simp only [replaceF_cons, hr, if_true]
        exact ⟨_, mem_cons_self, hr, rfl⟩
      | false =>
        simp only [replaceF_cons, hr, Bool.false_eq_true, if_false]
        rw [any_cons, hr, Bool.false_or] at hany
        obtain ⟨row, hrow, hsame⟩ := ih hany
        exact ⟨row, mem_cons_of_mem _ hrow, hsame⟩
  · refine ⟨_, mem_append_right _ (mem_singleton_self _), ?_, rfl⟩
    rw [hself]
    exact strEq_iff.mpr rfl

namespace Cluster

variable {rows : List (Bytes × Int64)} {tok : Token}

/-- A listed token stays listed when another one is revoked. -/
theorem Listed.memJtiRevoke_of_ne {jti : Bytes}
    (h : Listed rows tok) (hclean : cstr tok.jti = tok.jti) (hne : tok.jti ≠ cstr jti)
    (expiresAt : Int64) :
    Listed (memJtiRevoke rows jti expiresAt) tok := by
  obtain ⟨row, hrow, hsame, hexp⟩ := h
  refine ⟨row, mem_memJtiRevoke hrow ?_, hsame, hexp⟩
  rw [Bool.eq_false_iff]
  intro hother
  refine hne ?_
  rw [← hclean, ← strEq_iff.mp hsame]
  exact strEq_iff.mp hother

/-- A token is listed by a revocation that lasts as long as it does. -/
theorem Listed.of_memJtiRevoke {expiresAt : Int64}
    (hself : strlcpy 64 tok.jti = tok.jti) (hexp : tok.expiresAt ≤ expiresAt) :
    Listed (memJtiRevoke rows tok.jti expiresAt) tok := by
  obtain ⟨row, hrow, hsame, hval⟩ := exists_mem_memJtiRevoke rows expiresAt hself
  exact ⟨row, hrow, hsame, hval ▸ hexp⟩

/-! ## §4 The invariant -/

/-- What a run keeps. -/
structure Inv (P : Platform) (e : Endpoint) (cl : Cluster) : Prop where
  keys : ∀ node ∈ cl.nodes, node.2.Reachable
  issued : ∀ tok ∈ cl.issued, IssuedToken P.crypto tok
  distinct : (cl.issued.map Token.jti).Nodup
  known : ∀ tok ∈ cl.revoked, tok ∈ cl.issued
  barred : ∀ tok ∈ cl.revoked, cl.now < tok.expiresAt → ∀ node ∈ cl.nodes,
    Remembers e node.2 tok ∨ Listed cl.revokedJtis tok

section Steps

variable {P : Platform} {e : Endpoint} {cl cl' : Cluster} {n : Nat} {m m' : TokenManager}
    {time : Int64}

/-- The invariant at the start: no node and no token. -/
theorem Inv.start : Cluster.start.Inv P e where
  keys := nofun
  issued := nofun
  distinct := nodup_nil
  known := nofun
  barred := nofun

theorem mem_of_node? (h : cl.node? n = some m) : (n, m) ∈ cl.nodes := by
  obtain ⟨⟨n', m'⟩, hfind, rfl⟩ := map_eq_some_iff.mp h
  have hid := find?_some hfind
  obtain rfl : n' = n := beq_iff_eq.mp hid
  exact mem_of_find?_eq_some hfind

/-- A node is replaced, the others stay. -/
theorem mem_setNode {node : Nat × TokenManager} (h : node ∈ (cl.setNode n m).nodes) :
    node = (n, m) ∨ (node ∈ cl.nodes ∧ node.1 ≠ n) := by
  rcases mem_cons.mp h with rfl | h
  · exact .inl rfl
  · obtain ⟨hmem, hne⟩ := mem_filter.mp h
    exact .inr ⟨hmem, bne_iff_ne.mp hne⟩

theorem now_le_tick (cl : Cluster) (time : Int64) : cl.now ≤ (cl.tick time).now := by
  unfold tick
  split
  · assumption
  · exact Int64.le_refl _

/-- Time only ends tokens. -/
theorem Inv.tick (h : cl.Inv P e) (time : Int64) : (cl.tick time).Inv P e :=
  ⟨h.keys, h.issued, h.distinct, h.known, fun tok htok hlive =>
    h.barred tok htok (Int64.lt_of_le_of_lt (now_le_tick cl time) hlive)⟩

/-- A node may change if it remembers what is not listed. -/
theorem Inv.setNode (h : cl.Inv P e) (hm : m'.Reachable)
    (hbarred : ∀ tok ∈ cl.revoked, cl.now < tok.expiresAt → Remembers e m' tok ∨
      Listed cl.revokedJtis tok) :
    (cl.setNode n m').Inv P e := by
  refine ⟨fun node hnode => ?_, h.issued, h.distinct, h.known, fun tok htok hlive node hnode => ?_⟩
  · rcases mem_setNode hnode with rfl | ⟨hmem, -⟩
    · exact hm
    · exact h.keys node hmem
  · rcases mem_setNode hnode with rfl | ⟨hmem, -⟩
    · exact hbarred tok htok hlive
    · exact h.barred tok htok hlive node hmem

variable {tok : Token}

/-- Issued jtis fit the rows. -/
theorem Inv.clean_jti (h : cl.Inv P e) (htok : tok ∈ cl.issued) :
    strlcpy 64 tok.jti = tok.jti ∧ cstr tok.jti = tok.jti := by
  have hself := (h.issued tok htok).strlcpy_jti
  refine ⟨hself, ?_⟩
  rw [← hself]
  exact cstr_eq_self (not_mem_strlcpy _ _)

/-- A node that bars a token still does after another revocation. -/
theorem Remembers.revoke (h : Remembers e m tok) (jti : Bytes) : Remembers e (m.revoke jti) tok :=
  h.imp_left fun hmem => mem_append_left _ hmem

/-- `token_revoke` on a node, if the other nodes do not need the row, or the row is good. -/
theorem Inv.tokenRevoke (h : cl.Inv P e) {jti : Bytes} {expiresAt : Int64} (hm : m'.Reachable)
    (hold : ∀ tok ∈ cl.revoked, cl.now < tok.expiresAt → Remembers e m' tok ∨
      Listed cl.revokedJtis tok)
    (hcovered : ∀ tok ∈ cl.issued, tok.jti = cstr jti → cl.now < tok.expiresAt →
      tok.expiresAt ≤ expiresAt ∧ cstr jti = jti ∨
        ∀ node ∈ cl.nodes, node.1 ≠ n → Remembers e node.2 tok) :
    (cl.tokenRevoke n m' jti expiresAt).Inv P e := by
  refine ⟨fun node hnode => ?_, h.issued, h.distinct, fun tok htok => ?_,
    fun tok htok hlive node hnode => ?_⟩
  · rcases mem_setNode hnode with rfl | ⟨hmem, -⟩
    · exact .revoke jti hm
    · exact h.keys node hmem
  · rcases mem_append.mp htok with htok | htok
    · exact (mem_filter.mp htok).1
    · exact h.known tok htok
  · have hissued : tok ∈ cl.issued := by
      rcases mem_append.mp htok with htok | htok
      · exact (mem_filter.mp htok).1
      · exact h.known tok htok
    obtain ⟨hself, hclean⟩ := h.clean_jti hissued
    by_cases hjti : tok.jti = cstr jti
    · -- the token itself: the node has its jti, the others the row or their own memory
      rcases mem_setNode hnode with rfl | ⟨hmem, hne⟩
      · refine .inl (.inl (mem_append_right _ (mem_singleton.mpr ?_)))
        rw [← hself, hjti, strlcpy, strlcpy, cstr_cstr]
      · rcases hcovered tok hissued hjti hlive with ⟨hexp, hraw⟩ | hothers
        · rw [hraw] at hjti
          exact .inr (hjti ▸ Listed.of_memJtiRevoke hself hexp)
        · exact .inl (hothers node hmem hne)
    · -- another token: its row stays
      have hrevoked : tok ∈ cl.revoked := by
        rcases mem_append.mp htok with htok | htok
        · exact absurd (beq_iff_eq.mp (mem_filter.mp htok).2) hjti
        · exact htok
      rcases mem_setNode hnode with rfl | ⟨hmem, -⟩
      · exact (hold tok hrevoked hlive).imp (fun hr => hr.revoke jti)
          fun hrow => hrow.memJtiRevoke_of_ne hclean hjti expiresAt
      · exact (h.barred tok hrevoked hlive node hmem).imp_right
          fun hrow => hrow.memJtiRevoke_of_ne hclean hjti expiresAt

/-- The revocation of what a node read from an issued text: its row is good. -/
theorem Inv.tokenRevoke_read (h : cl.Inv P e) (hnode : cl.node? n = some m) {text : Bytes}
    (hread : tokenVerify P.crypto m time text = some (.ok tok))
    (hissued : ∃ old ∈ cl.issued, old.tokenStr = text) :
    (cl.tokenRevoke n m tok.jti tok.expiresAt).Inv P e := by
  have hmem := mem_of_node? hnode
  refine h.tokenRevoke (h.keys _ hmem) (fun t ht hlive => h.barred t ht hlive _ hmem) ?_
  obtain ⟨old, hold, rfl⟩ := hissued
  obtain ⟨mgr, k, args, draw, hk, hissue⟩ := h.issued old hold
  obtain ⟨hjti, -, -⟩ := headOf_tokenVerify_issued hk hissue hread
  obtain ⟨hexp, -⟩ := expiry_tokenVerify_issued hk hissue hread
  obtain ⟨-, hclean⟩ := h.clean_jti hold
  intro t ht hsame _
  rw [hjti, hclean] at hsame
  obtain rfl := inj_on_of_nodup_map h.distinct ht hold hsame
  exact .inl ⟨Int64.le_of_eq hexp.symm, by rw [hjti, hclean]⟩

/-- A new token has a jti of its own. -/
theorem Inv.issue (h : cl.Inv P e) (hnode : cl.node? n = some m) {args : IssueArgs}
    {draw : IssueEnv}
    (htok : tokenIssue P.crypto m args draw = .ok tok)
    (hfresh : ∀ old ∈ cl.issued, old.jti ≠ tok.jti) :
    ({ cl with issued := tok :: cl.issued } : Cluster).Inv P e := by
  obtain ⟨k, hk⟩ := keysOk_of_reachable (h.keys _ (mem_of_node? hnode))
  refine ⟨h.keys, fun t ht => ?_, ?_, fun t ht => mem_cons_of_mem _ (h.known t ht), h.barred⟩
  · rcases mem_cons.mp ht with rfl | ht
    · exact ⟨m, k, args, draw, hk, htok⟩
    · exact h.issued t ht
  · refine nodup_cons.mpr ⟨fun hin => ?_, h.distinct⟩
    obtain ⟨old, hold, hsame⟩ := mem_map.mp hin
    exact hfresh old hold hsame

theorem Remembers.registerSession (h : Remembers e m tok) (uid : UInt64) (jti : Bytes) :
    Remembers e (m.registerSession uid jti).1 tok := by
  obtain ⟨tracks, htracks⟩ := registerSession_fst m uid jti
  rw [htracks]
  exact h

/-- A logout everywhere bumps the nonce on this node; the other nodes have to know of it. -/
theorem Inv.logoutAll (h : cl.Inv P e) (hnode : cl.node? n = some m) {uid : UInt64}
    (hcovered : ∀ tok ∈ cl.issued, tok.userId = uid → cl.now < tok.expiresAt →
      ∀ node ∈ (cl.setNode n (m.bumpNonce uid)).nodes, Remembers e node.2 tok ∨
        Listed cl.revokedJtis tok) :
    ({ cl.setNode n (m.bumpNonce uid) with
      revoked := (cl.issued.filter fun tok => tok.userId == uid) ++ cl.revoked } : Cluster).Inv P
        e := by
  have hmem := mem_of_node? hnode
  have hknown : ∀ tok ∈ (cl.issued.filter fun tok => tok.userId == uid) ++ cl.revoked, tok ∈
    cl.issued := by
    intro tok htok
    rcases mem_append.mp htok with htok | htok
    · exact (mem_filter.mp htok).1
    · exact h.known tok htok
  refine ⟨fun node hin => ?_, h.issued, h.distinct, hknown, fun tok htok hlive node hin => ?_⟩
  · rcases mem_setNode hin with rfl | ⟨hin, -⟩
    · exact .setNonce _ _ (h.keys _ hmem)
    · exact h.keys node hin
  · by_cases huser : tok.userId = uid
    · exact hcovered tok (hknown tok htok) huser hlive node hin
    · have hrevoked : tok ∈ cl.revoked := by
        rcases mem_append.mp htok with htok | htok
        · exact absurd (beq_iff_eq.mp (mem_filter.mp htok).2) huser
        · exact htok
      rcases mem_setNode hin with rfl | ⟨hin, -⟩
      · refine (h.barred tok hrevoked hlive _ hmem).imp_left
          (Or.imp_right (And.imp_right fun hlt => ?_))
        rw [getNonce_bumpNonce, if_neg huser]
        exact hlt
      · exact h.barred tok hrevoked hlive node hin

/-- One call on a node that is up; its conditions are those of the event. -/
theorem Inv.perform {call : NodeCall} (h : cl.Inv P e) (hnode : cl.node? n = some m)
    (hcovered : cl.Covered e (.call n time call)) (hideal : cl.Ideal P (.call n time call))
    (hnow : (cl.tick time).now = cl.now) (hstep : cl.perform P n m time call = some cl') :
      cl'.Inv P e := by
  have hmem := mem_of_node? hnode
  cases call with
  | issue args draw =>
    simp only [Cluster.perform] at hstep
    split at hstep
    · next tok htok =>
      cases hstep
      exact h.issue hnode htok (hideal m hnode tok (by rw [htok]; rfl))
    · cases hstep
      exact h
  | registerSession uid jti =>
    have hold := fun tok htok hlive =>
      (h.barred tok htok hlive _ hmem).imp_left fun hr => hr.registerSession uid jti
    have hreach : (m.registerSession uid jti).1.Reachable :=
      .registerSession uid jti (h.keys _ hmem)
    simp only [Cluster.perform] at hstep
    split at hstep
    · cases hstep
      exact h.setNode hreach hold
    · next oldest holdest =>
      cases hstep
      refine h.tokenRevoke hreach hold fun tok htok hjti hlive => .inr ?_
      exact hcovered m hnode oldest holdest tok htok hjti (hnow ▸ hlive)
  | logout req =>
    obtain ⟨res, hres, rfl⟩ := map_eq_some_iff.mp hstep
    cases res with
    | error err => exact h
    | ok auth =>
      obtain ⟨user, tok⟩ := auth
      have hread : tokenVerify P.crypto m time req.authToken = some (.ok tok) :=
        (authenticateRequest_ok hres).1
      exact h.tokenRevoke_read hnode hread (hideal m hnode (by rw [hread]; rfl))
  | oauthRevoke text =>
    obtain ⟨res, hres, rfl⟩ := map_eq_some_iff.mp hstep
    cases res with
    | error err => exact h
    | ok tok => exact h.tokenRevoke_read hnode hres (hideal m hnode (by rw [hres]; rfl))
  | logoutAll uid =>
    cases hstep
    exact h.logoutAll hnode fun tok htok huser hlive => hcovered m hnode tok htok huser
      (hnow ▸ hlive)

theorem tick_tick (cl : Cluster) (time : Int64) : ((cl.tick time).tick time).now =
    (cl.tick time).now := by
  unfold tick
  split
  · exact if_pos (Int64.le_refl _)
  · rfl

/-- Every covered event keeps the invariant. -/
theorem Inv.step {ev : ClusterEvent} (h : cl.Inv P e) (hcovered : cl.Covered e ev)
    (hideal : cl.Ideal P ev)
    (hstep : cl.step P ev = some cl') : cl'.Inv P e := by
  cases ev with
  | users store =>
    cases hstep
    exact ⟨h.keys, h.issued, h.distinct, h.known, h.barred⟩
  | boot n secret ttl =>
    simp only [Cluster.step] at hstep
    split at hstep
    · next m hm =>
      cases hstep
      exact h.setNode (.start (.init hm)) fun tok htok hlive => .inr (hcovered tok htok hlive)
    · cases hstep
      exact ⟨fun node hnode => h.keys node (mem_filter.mp hnode).1, h.issued, h.distinct, h.known,
        fun tok htok hlive node hnode => h.barred tok htok hlive node (mem_filter.mp hnode).1⟩
  | call n time call =>
    simp only [Cluster.step] at hstep
    split at hstep
    · next m hnode =>
      -- the conditions read the clock after the tick, and nothing else of the tick
      have hcovered' : (cl.tick time).Covered e (.call n time call) := by
        cases call with
        | registerSession uid jti =>
          intro m hm oldest holdest tok htok hjti hlive
          exact hcovered m hm oldest holdest tok htok hjti (tick_tick cl time ▸ hlive)
        | logoutAll uid =>
          intro m hm tok htok huser hlive
          exact hcovered m hm tok htok huser (tick_tick cl time ▸ hlive)
        | issue | logout | oauthRevoke => trivial
      have hideal' : (cl.tick time).Ideal P (.call n time call) := by
        cases call with
        | issue | logout | oauthRevoke => exact hideal
        | registerSession | logoutAll => trivial
      exact (h.tick time).perform hnode hcovered' hideal' (tick_tick cl time) hstep
    · cases hstep
      exact h.tick time

end Steps

instance (e : Endpoint) (cl : Cluster) (ev : ClusterEvent) : Decidable (cl.Covered e ev) := by
  unfold Covered
  split <;> infer_instance

instance (P : Platform) (cl : Cluster) (ev : ClusterEvent) : Decidable (cl.Ideal P ev) := by
  unfold Ideal
  split <;> infer_instance

end Cluster

end SsoSystem
