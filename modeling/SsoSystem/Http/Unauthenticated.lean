/-
SsoSystem.Http.Unauthenticated — what a request without an acceptable token
can change.

Routes that authenticate turn it away, and of the others only the documented
public ones write records. Two remain. The end of a session revokes whatever
token stands in `id_token_hint`. And the Raft endpoints ask no one: in Raft
mode the body of POST /api/v1/raft/execute is proposed to the cluster as a
storage command, and the entries of POST /raft/append_entries go to the library
as the leader's.
-/
import SsoSystem.Http.RouteTheorems

namespace SsoSystem

open CMem Handling Option Server

variable {P : Platform} {cfg : ServerConfig} {env : Moment} {s s' : Server} {a : Answer}
    {e : HttpEvent}

/-! ## §1 What the open handlers do -/

/-- The commands in a body that POST /raft/append_entries or POST /api/v1/raft/execute hands
to the library. -/
def bodyCommands (req : HttpRequest) : ApiHandler → List Bytes
  | .raftExecute => if req.hasBody then [req.bodyText] else []
  | .raftAppendEntries => if req.hasBody then req.json.elim [] entryCommands else []
  | _ => []

theorem raftMessage_raft {req : Request} {commands : Json → List Bytes}
    (h : (raftMessage env req commands).exec Server.perform s = some (a, s')) :
    s'.raft = s.raft.map ((if req.hasBody then req.json.elim [] commands else []).reverse ++
      ·) := by
  unfold raftMessage at h
  cases hraft : s.raft with
  | none =>
    simp only [Prog.exec, perform, hraft] at h
    cases h
    rfl
  | some log =>
    cases hbody : req.hasBody with
    | false =>
      simp only [Prog.exec, perform, hraft, hbody] at h
      cases h
      rfl
    | true =>
      simp only [Prog.exec, perform, hraft, hbody] at h
      cases hjson : req.json with
      | none =>
        simp only [hjson] at h
        cases h
        rfl
      | some doc =>
        simp only [hjson] at h
        simp only [isSome_some, Bool.not_true, Bool.or_self, Bool.false_eq_true, if_false,
          Prog.exec,
          perform] at h
        split at h
        · cases h
          rfl
        · cases h
          rfl

variable {req : HttpRequest} {auth : Option AuthUser} {h : ApiHandler} {route : ApiRoute}

theorem handleRaftExecute_raft
    (h : (handleRaftExecute env req).exec Server.perform s = some (a, s')) :
    s'.raft = s.raft.map ((bodyCommands req .raftExecute).reverse ++ ·) := by
  unfold handleRaftExecute at h
  unfold bodyCommands
  split at h
  · next hbody =>
    cases h
    have hbody : req.hasBody = false := by simpa using hbody
    simp [hbody]
  · next hbody =>
    have hbody : req.hasBody = true := by simpa using hbody
    cases hraft : s.raft with
    | none =>
      simp only [Prog.exec, perform, hraft] at h
      cases h
    | some log =>
      simp only [Prog.exec, perform, hraft, isSome_some, Bool.not_true, Bool.false_eq_true,
        if_false] at h
      split at h
      · cases h
        simp [hbody]
      · cases h
        simp [hbody]

theorem handle_raft
    (hexec : (h.handle P cfg e.env e.req auth).exec Server.perform s = some (a, s')) :
    s'.raft = s.raft.map ((bodyCommands e.req h).reverse ++ ·) := by
  have hsame : .raftLog ∉ h.writes → s'.raft = s.raft := (handle_exec hexec).1 .raftLog
  cases h with
  | raftExecute => exact handleRaftExecute_raft hexec
  | raftAppendEntries => exact raftMessage_raft hexec
  | _ =>
    rw [hsame (by decide)]
    simp [bodyCommands]

/-! ## §2 The condition -/

/-- The handler of a request. -/
def handlerOf (req : HttpRequest) : Option ApiHandler := (routeOf req).map ApiRoute.handler

/-- In Raft mode, the body has commands for the cluster. -/
def CarriesCommand (s : Server) (e : HttpEvent) : Prop :=
  s.raft.isSome = true ∧ (handlerOf e.req).elim [] (bodyCommands e.req) ≠ []

theorem map_append_eq_self {α : Type} {o : Option (List α)} {l : List α} :
    o.map (l ++ ·) = o ↔ ¬(o.isSome = true ∧ l ≠ []) := by
  cases o with
  | none => simp
  | some log => simp

theorem handlerOf_eq (hroute : routeOf req = some route) : handlerOf req = some route.handler := by
  rw [handlerOf, hroute]
  rfl

theorem raft_iff (hh : handlerOf e.req = some h)
    (hexec : (h.handle P cfg e.env e.req auth).exec Server.perform s = some (a, s')) :
    s'.raft = s.raft ↔ ¬CarriesCommand s e := by
  rw [handle_raft hexec, map_append_eq_self, CarriesCommand, hh]
  simp

/-- A request without a token. -/
def plainRequest (method : HttpMethod) (path : String) (body : Option String) : HttpRequest where
  authToken := []
  hasBody := body.isSome
  json := none
  dpopProof := []
  methodStr := []
  host := lit "sso"
  path := lit path
  method := method
  queryParams := []
  bodyText := lit (body.getD "")
  bodyParsed := []

end SsoSystem
