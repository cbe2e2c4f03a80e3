/-
SsoSystem.Token.SessionTheorems — the ring of registered sessions.

A ring never holds more than three jtis. A jti that was registered stays in
the ring of its user until a later registration of the same user puts another
in its place, and then it is the one that comes out. The list of revoked
jtis is sorted when it is searched and not when it is written.
-/
import Mathlib.Data.List.Nodup
import SsoSystem.Token.VerifyTheorems

namespace SsoSystem

open CMem List TokenManager

/-! ## §1 One ring -/

/-- At most three jtis, and a position among them. -/
structure SessionTrack.Ok (track : SessionTrack) : Prop where
  size : track.jtis.length ≤ 3
  oldest : track.oldestIdx < 3

variable {track : SessionTrack}

/-- A ring keeps its form over a registration. -/
theorem SessionTrack.Ok.register (h : track.Ok) (jti : Bytes) : (track.register jti).1.Ok := by
  unfold SessionTrack.register
  split
  · next hfree =>
    refine ⟨?_, h.oldest⟩
    rw [length_append, length_singleton]
    omega
  · refine ⟨?_, Nat.mod_lt _ (by decide)⟩
    rw [length_set]
    exact h.size

theorem SessionTrack.userId_register (track : SessionTrack) (jti : Bytes) :
    (track.register jti).1.userId = track.userId := by
  unfold SessionTrack.register
  split <;> rfl

/-- A registered jti is in its ring. -/
theorem SessionTrack.Ok.mem_register (h : track.Ok) (jti : Bytes) :
    strlcpy 64 jti ∈ (track.register jti).1.jtis := by
  unfold SessionTrack.register
  split
  · exact mem_append_right _ (mem_singleton_self _)
  · next hfull =>
    have hidx : track.oldestIdx < track.jtis.length := by
      have := h.oldest
      omega
    exact mem_set hidx _

/-- What was in the ring is still there, or comes out. -/
theorem SessionTrack.mem_register_of_mem (jti : Bytes) {x : Bytes} (hx : x ∈ track.jtis) :
    x ∈ (track.register jti).1.jtis ∨ (track.register jti).2 = some x := by
  unfold SessionTrack.register
  split
  · exact .inl (mem_append_left _ hx)
  · obtain ⟨i, hi⟩ := mem_iff_getElem?.mp hx
    by_cases hidx : track.oldestIdx = i
    · exact .inr (hidx ▸ hi)
    · refine .inl (mem_iff_getElem?.mpr ⟨i, ?_⟩)
      rw [getElem?_set_ne hidx]
      exact hi

/-! ## §2 The rings of all users -/

/-- Writing one user's ring leaves the others to be found as before. -/
theorem find?_replaceF_track {uid : UInt64} {new track : SessionTrack} {tracks : List SessionTrack}
    (hnew : new.userId = uid) (hfind : tracks.find? (fun t => t.userId == uid) = some track)
    (u : UInt64) :
    (tracks.replaceF fun t => if t.userId == uid then some new else none).find?
      (fun t => t.userId == u) = if u = uid then some new else tracks.find? fun t => t.userId ==
        u := by
  obtain ⟨old, _, front, back, hfront, hold, rfl, heq⟩ :=
    exists_of_replaceF (p := fun t => if t.userId == uid then some new else none)
      (mem_of_find?_eq_some hfind) (if_pos (find?_some hfind))
  obtain ⟨huser, ⟨⟩⟩ := Option.ite_none_right_eq_some.mp hold
  rw [heq, find?_append, find?_append]
  by_cases hu : u = uid
  · have hnone : front.find? (fun t => t.userId == uid) = none :=
      find?_eq_none.mpr fun t ht => by simpa using hfront t ht
    simp [hu, hnone, hnew]
  · simp [hu, hnew, beq_iff_eq.mp huser, Ne.symm hu]

namespace TokenManager

/-- The jtis in the ring of a user. -/
def ring (m : TokenManager) (uid : UInt64) : List Bytes :=
  ((m.sessions.find? fun track => track.userId == uid).map SessionTrack.jtis).getD []

def RingsOk (m : TokenManager) : Prop := ∀ track ∈ m.sessions, track.Ok

variable {m : TokenManager}

/-- The ring a registration of the user works on. -/
def trackOf (m : TokenManager) (uid : UInt64) : SessionTrack :=
  (m.sessions.find? fun track => track.userId == uid).getD
    { userId := uid, jtis := [], oldestIdx := 0 }

theorem ring_eq (m : TokenManager) (uid : UInt64) : m.ring uid = (m.trackOf uid).jtis := by
  unfold ring trackOf
  cases m.sessions.find? fun track => track.userId == uid <;> rfl

/-- A user without a ring counts as one with an empty ring. -/
theorem RingsOk.trackOf (h : m.RingsOk) (uid : UInt64) : (m.trackOf uid).Ok := by
  unfold TokenManager.trackOf
  cases hfind : m.sessions.find? fun track => track.userId == uid with
  | none => exact ⟨Nat.zero_le _, Nat.zero_lt_succ _⟩
  | some track => exact h track (mem_of_find?_eq_some hfind)

/-- At most three sessions are tracked for a user. -/
theorem RingsOk.length_ring (h : m.RingsOk) (uid : UInt64) : (m.ring uid).length ≤ 3 :=
  ring_eq m uid ▸ (h.trackOf uid).size

theorem mem_replaceF_track {uid : UInt64} {new t : SessionTrack} {tracks : List SessionTrack}
    (h : t ∈ tracks.replaceF fun t => if t.userId == uid then some new else none) :
    t = new ∨ t ∈ tracks := by
  rcases exists_or_eq_self_of_replaceF (fun t => if t.userId == uid then some new else none)
    tracks with heq | ⟨old, _, front, back, -, hold, rfl, heq⟩
  · exact .inr (heq ▸ h)
  · obtain ⟨-, ⟨⟩⟩ := Option.ite_none_right_eq_some.mp hold
    rw [heq] at h
    rcases mem_append.mp h with h | h
    · exact .inr (mem_append_left _ h)
    · exact (mem_cons.mp h).imp_right fun h => by simp [h]

/-- The invariant of all rings, over a registration. -/
theorem RingsOk.registerSession (h : m.RingsOk) (uid : UInt64) (jti : Bytes) :
    (m.registerSession uid jti).1.RingsOk := by
  unfold TokenManager.registerSession
  split
  · next track hfind =>
    intro t ht
    rcases mem_replaceF_track ht with rfl | ht
    · exact (h track (mem_of_find?_eq_some hfind)).register jti
    · exact h t ht
  · intro t ht
    rcases mem_append.mp ht with ht | ht
    · exact h t ht
    · rw [mem_singleton.mp ht]
      exact SessionTrack.Ok.register ⟨Nat.zero_le _, Nat.zero_lt_succ _⟩ jti

/-- The jti pushed out comes from the ring of that user. -/
theorem registerSession_snd (m : TokenManager) (uid : UInt64) (jti : Bytes) :
    (m.registerSession uid jti).2 = ((m.trackOf uid).register jti).2 := by
  unfold registerSession trackOf
  cases m.sessions.find? fun track => track.userId == uid <;> rfl

/-- A registration changes one ring. -/
theorem trackOf_registerSession (m : TokenManager) (uid u : UInt64) (jti : Bytes) :
    (m.registerSession uid jti).1.trackOf u =
      if u = uid then ((m.trackOf uid).register jti).1 else m.trackOf u := by
  unfold registerSession trackOf
  cases hfind : m.sessions.find? fun track => track.userId == uid with
  | some track =>
    have huser : (track.register jti).1.userId = uid := by
      have hfound := find?_some hfind
      rw [SessionTrack.userId_register]
      exact beq_iff_eq.mp hfound
    dsimp only
    rw [find?_replaceF_track huser hfind]
    split <;> rfl
  | none =>
    dsimp only
    rw [find?_append]
    split
    · next hu =>
      rw [hu, hfind]
      simp [SessionTrack.register]
    · next hu => simp [SessionTrack.register, Ne.symm hu]

/-- The sessions of other users stay. -/
theorem ring_registerSession_of_ne (m : TokenManager) {uid u : UInt64} (hne : u ≠ uid)
    (jti : Bytes) :
    (m.registerSession uid jti).1.ring u = m.ring u := by
  rw [ring_eq, ring_eq, trackOf_registerSession, if_neg hne]

theorem RingsOk.mem_ring_registerSession (h : m.RingsOk) (uid : UInt64) (jti : Bytes) :
    strlcpy 64 jti ∈ (m.registerSession uid jti).1.ring uid := by
  rw [ring_eq, trackOf_registerSession, if_pos rfl]
  exact (h.trackOf uid).mem_register jti

/-- A jti leaves its ring only as the one that is pushed out. -/
theorem mem_ring_registerSession_of_mem (m : TokenManager) (uid : UInt64) (jti : Bytes) {x : Bytes}
    (hx : x ∈ m.ring uid) :
    x ∈ (m.registerSession uid jti).1.ring uid ∨ (m.registerSession uid jti).2 = some x := by
  rw [ring_eq, trackOf_registerSession, if_pos rfl, registerSession_snd]
  exact SessionTrack.mem_register_of_mem jti (ring_eq m uid ▸ hx)

end TokenManager

/-! ## §3 The last three -/

variable (m : TokenManager) (uid : UInt64) (jti : Bytes)

/-- `token_register_session` with no storage backend attached. -/
def TokenManager.register : TokenManager :=
  let registered := m.registerSession uid jti
  registered.2.elim registered.1 registered.1.revoke

/-- The manager after the calls of a history, the latest first. -/
def TokenManager.registerAll (calls : List (UInt64 × Bytes)) : TokenManager :=
  calls.foldr (fun call m => m.register call.1 call.2) m

/-- The jtis of a user in a history, the latest first. -/
def jtisOf (calls : List (UInt64 × Bytes)) : List Bytes :=
  (calls.filter fun call => call.1 == uid).map Prod.snd

/-- A text shorter than an entry. -/
def IsJti : Prop := (0 : UInt8) ∉ jti ∧ jti.length < 64

variable {calls : List (UInt64 × Bytes)} {js : List Bytes}

theorem mem_jtisOf {uid : UInt64} {x : Bytes} : x ∈ jtisOf uid calls ↔ (uid, x) ∈ calls := by
  simp [jtisOf]

theorem jtisOf_cons (uid u : UInt64) (jti : Bytes) : jtisOf u ((uid, jti) :: calls) =
    if u = uid then jti :: jtisOf u calls else jtisOf u calls := by
  by_cases h : u = uid <;> simp [jtisOf, h, Ne.symm]

/-- The ring holds the last three jtis, the oldest at its index. -/
structure SessionTrack.Holds (track : SessionTrack) (js : List Bytes) : Prop where
  jtis : (track.jtis.drop track.oldestIdx ++ track.jtis.take track.oldestIdx).reverse = js.take 3
  filling : js.length < 3 → track.oldestIdx = 0
  oldest : track.oldestIdx < 3

/-- A ring holds the last three jtis; a fourth pushes out the oldest. -/
theorem SessionTrack.Holds.register (h : track.Holds js) (jti : Bytes) :
    (track.register jti).1.Holds (strlcpy 64 jti :: js) ∧ (track.register jti).2 = js[2]? := by
  obtain ⟨uid, jtis, idx⟩ := track
  obtain ⟨hjtis, hfill, hidx⟩ := h
  have hlen := congrArg List.length hjtis
  simp only [length_reverse, length_append, length_drop, length_take]
    at hlen hjtis hfill hidx
  match js with
  | [] | [_] | [_, _] =>
    obtain rfl := hfill (by simp)
    obtain rfl : jtis = _ := by simpa using congrArg List.reverse hjtis
    exact ⟨⟨rfl, by simp [SessionTrack.register], Nat.zero_lt_succ _⟩, rfl⟩
  | x :: y :: z :: js =>
    simp only [length_cons] at hlen
    obtain ⟨a, b, c, rfl⟩ := length_eq_three.mp (show jtis.length = 3 by omega)
    have hcases : idx = 0 ∨ idx = 1 ∨ idx = 2 := by omega
    rcases hcases with rfl | rfl | rfl <;> cases hjtis <;>
      exact ⟨⟨by simp [SessionTrack.register], by simp, by simp [SessionTrack.register]⟩, rfl⟩

/-- What a history leaves in the rings and in the list of revoked jtis. -/
structure TokenManager.Registered (m : TokenManager) (calls : List (UInt64 × Bytes)) : Prop where
  rings : ∀ u, (m.trackOf u).Holds (jtisOf u calls)
  revoked : ∀ x, x ∈ m.jtis ↔ ∃ u, x ∈ (jtisOf u calls).drop 3

/-- One registration: the rings hold the last three, and all older jtis are revoked. -/
theorem TokenManager.Registered.register {m : TokenManager} (h : m.Registered calls)
    (hcalls : ∀ call ∈ calls, IsJti call.2) (uid : UInt64) {jti : Bytes} (hjti : IsJti jti) :
    (m.register uid jti).Registered ((uid, jti) :: calls) := by
  obtain ⟨tracks, htracks⟩ := registerSession_fst m uid jti
  obtain ⟨hring, hout⟩ := (h.rings uid).register jti
  rw [strlcpy_eq_self hjti.1 hjti.2] at hring
  -- what comes out of the ring is added to the list as it is
  have hjtis : (m.register uid jti).jtis = m.jtis ++ (jtisOf uid calls)[2]?.toList := by
    simp only [TokenManager.register, registerSession_snd, hout, htracks]
    cases hthird : (jtisOf uid calls)[2]? with
    | none => simp
    | some y =>
      have hy := hcalls _ (mem_jtisOf.mp (mem_of_getElem? hthird))
      simp [TokenManager.revoke, strlcpy_eq_self hy.1 hy.2]
  have htrack : ∀ u, (m.register uid jti).trackOf u = (m.registerSession uid jti).1.trackOf u := by
    intro u
    simp only [TokenManager.register]
    cases (m.registerSession uid jti).2 <;> rfl
  constructor
  · intro u
    rw [htrack, trackOf_registerSession, jtisOf_cons]
    split
    · next hu => rwa [hu]
    · exact h.rings u
  · intro x
    have hdrop : ∀ u, x ∈ (jtisOf u ((uid, jti) :: calls)).drop 3 ↔
        x ∈ (jtisOf u calls).drop 3 ∨ u = uid ∧ x ∈ (jtisOf uid calls)[2]?.toList := by
      intro u
      rw [jtisOf_cons]
      split
      · next hu =>
        subst hu
        match jtisOf u calls with
        | [] | [_] | [_, _] | _ :: _ :: _ :: _ => simp [or_comm]
      · next hu => simp [hu]
    simp only [hjtis, mem_append, h.revoked, hdrop, exists_or, exists_eq_left]

/-- The same after any number of them, by induction on the calls. -/
theorem TokenManager.registered_registerAll {m : TokenManager} (hnone : m.jtis = [])
    (hfresh : m.sessions = []) (hcalls : ∀ call ∈ calls, IsJti call.2) :
    (m.registerAll calls).Registered calls := by
  induction calls with
  | nil =>
    refine ⟨fun u => ?_, by simp [registerAll, hnone, jtisOf]⟩
    simp only [registerAll, foldr_nil, trackOf, hfresh]
    exact ⟨rfl, fun _ => rfl, Nat.zero_lt_succ _⟩
  | cons call calls ih =>
    obtain ⟨hcall, hcalls⟩ := forall_mem_cons.mp hcalls
    exact (ih hcalls).register hcalls call.1 hcall

/-- Of the sessions registered for any users in any order, those that are not among the last
three of their own user are revoked, and no others. -/
theorem revoked_iff_not_last_three {m : TokenManager} (hnone : m.jtis = [])
    (hfresh : m.sessions = [])
    (hcalls : ∀ call ∈ calls, IsJti call.2) (hdistinct : (calls.map Prod.snd).Nodup) :
    ∀ call ∈ calls, (m.registerAll calls).isRevoked call.2 = true ↔
      call.2 ∉ (jtisOf call.1 calls).take 3 := by
  rintro ⟨u, x⟩ hx
  have hnodup : (jtisOf u calls).Nodup := hdistinct.sublist (filter_sublist.map _)
  have hown := mem_jtisOf.mpr hx
  rw [← take_append_drop 3 (jtisOf u calls)] at hown hnodup
  rw [isRevoked, cstr_eq_self (hcalls _ hx).1, contains_iff_mem,
    (registered_registerAll hnone hfresh hcalls).revoked]
  constructor
  · rintro ⟨v, hv⟩ htake
    cases inj_on_of_nodup_map hdistinct (mem_jtisOf.mp (mem_of_mem_drop hv)) hx rfl
    exact disjoint_of_nodup_append hnodup htake hv
  · exact fun htake => ⟨u, (mem_append.mp hown).resolve_left htake⟩

theorem fourSessions_first_revoked : (freshManager.registerAll
    [(1, lit "d"), (2, lit "x"), (1, lit "c"), (1, lit "b"), (1, lit "a")]).isRevoked (lit "a") :=
  (@revoked_iff_not_last_three _ freshManager rfl rfl
    (by simp only [forall_mem_cons, IsJti]; decide) (by decide) (1, lit "a") (by decide)).mpr
    (by decide)

/-- A text longer than an entry is stored cut, and is not found in the list. -/
theorem longJti_never_revoked :
    let long := fun last : UInt8 => List.replicate 64 97 ++ [last]
    let calls := [(1, long 52), (1, long 51), (1, long 50), (1, long 49)]
    (calls.map Prod.snd).Nodup ∧ long 49 ∉ (jtisOf 1 calls).take 3 ∧
      (freshManager.registerAll calls).isRevoked (long 49) = false := by
  decide +kernel

/-! ## §4 The list of revoked jtis -/

/-- `jtis`, `rev_capacity` (0 while `jtis` is NULL) and `rev_sorted`. -/
structure RevocationList where
  entries : List Bytes := []
  capacity : Nat := 0
  sorted : Bool := false

/-- `qsort` and `bsearch` of the C library with the order of `compare_jtis`. -/
structure SortSearch where
  le : Bytes → Bytes → Prop
  qsort : List Bytes → List Bytes
  bsearch : Bytes → List Bytes → Bool
  perm : ∀ l, (qsort l).Perm l
  sorts : ∀ l, (qsort l).Pairwise le
  finds : ∀ l j, l.Pairwise le → (bsearch j l = true ↔ j ∈ l)

inductive RevocationCall where
  | revoke (memory : Bool) (jti : Bytes)
  | isRevoked (jti : Bytes)

namespace RevocationList

/-- The list in `token_revoke`; `memory` says whether the allocator has any. -/
def revoke (l : RevocationList) (memory : Bool) (jti : Bytes) : SsoError × RevocationList :=
  let full := l.capacity ≤ l.entries.length
  if full ∧ memory = false then (.outOfMemory, l)
  else (.ok,
    { entries := l.entries ++ [strlcpy 64 jti]
      capacity := if l.capacity = 0 then 64 else if full then l.capacity * 2 else l.capacity
      sorted := false })

variable (q : SortSearch)

/-- The list in `token_is_revoked`. -/
def isRevoked (l : RevocationList) (jti : Bytes) : Bool × RevocationList :=
  if l.capacity = 0 ∨ l.entries.length = 0 then (false, l)
  else
    let l := if l.sorted then l else { l with entries := q.qsort l.entries, sorted := true }
    (q.bsearch (cstr jti) l.entries, l)

/-- A call on the list, and the jtis revoked so far. -/
def call (s : RevocationList × List Bytes) : RevocationCall → RevocationList × List Bytes
  | .revoke memory jti =>
    let r := s.1.revoke memory jti
    (r.2, if r.1 = .ok then jti :: s.2 else s.2)
  | .isRevoked jti => ((s.1.isRevoked q jti).2, s.2)

/-- The entries are the revoked jtis in some order, and sorted if they are marked so. -/
structure Inv (s : RevocationList × List Bytes) : Prop where
  entries : s.1.entries.Perm s.2
  sorted : s.1.sorted = true → s.1.entries.Pairwise q.le
  room : s.1.entries.length ≤ s.1.capacity

variable {q} {s : RevocationList × List Bytes}

/-- A revocation adds its jti to the entries. -/
theorem Inv.revoke (h : Inv q s) (memory : Bool) {jti : Bytes} (hjti : IsJti jti) :
    Inv q (call q s (.revoke memory jti)) := by
  have hroom := h.room
  simp only [call, RevocationList.revoke, strlcpy_eq_self hjti.1 hjti.2]
  split
  · exact h
  · refine ⟨(perm_append_singleton _ _).trans (h.entries.cons jti), nofun, ?_⟩
    simp only [length_append, length_singleton]
    split_ifs <;> omega

/-- A search finds the revoked jtis, and at most puts the entries in order. -/
theorem Inv.isRevoked (h : Inv q s) (jti : Bytes) : Inv q ((s.1.isRevoked q jti).2, s.2) ∧
    ((s.1.isRevoked q jti).1 = true ↔ cstr jti ∈ s.2) := by
  have hroom := h.room
  simp only [RevocationList.isRevoked]
  split
  · next hnone =>
    have hnil : s.1.entries = [] := eq_nil_of_length_eq_zero (by omega)
    exact ⟨h, by simp [← h.entries.mem_iff, hnil]⟩
  · split
    · next hsorted => exact ⟨h, by rw [q.finds _ _ (h.sorted hsorted), h.entries.mem_iff]⟩
    · have hperm := (q.perm s.1.entries).trans h.entries
      refine ⟨⟨hperm, fun _ => q.sorts _, ?_⟩, by rw [q.finds _ _ (q.sorts _), hperm.mem_iff]⟩
      rwa [(q.perm _).length_eq]

/-- So are all revocations of a sequence of calls. -/
theorem inv_calls {calls : List RevocationCall}
    (hcalls : ∀ memory jti, .revoke memory jti ∈ calls → IsJti jti)
    (h : Inv q s) : Inv q (calls.foldl (call q) s) := by
  induction calls generalizing s with
  | nil => exact h
  | cons c calls ih =>
    refine ih (fun memory jti hmem => hcalls memory jti (.tail _ hmem)) ?_
    cases c with
    | revoke memory jti => exact h.revoke memory (hcalls memory jti (.head _))
    | isRevoked jti => exact (h.isRevoked jti).1

/-- After any calls, a jti is found exactly if a call has revoked it. -/
theorem isRevoked_iff_revoked (q : SortSearch) (calls : List RevocationCall)
    (hcalls : ∀ memory jti, .revoke memory jti ∈ calls → IsJti jti) (jti : Bytes)
    (hjti : IsJti jti) :
    let s := calls.foldl (call q) ({}, [])
    (s.1.isRevoked q jti).1 = true ↔ jti ∈ s.2 := by
  intro s
  have hinv : Inv q s := inv_calls hcalls ⟨.refl _, nofun, Nat.le_refl _⟩
  rw [(hinv.isRevoked jti).2, cstr_eq_self hjti.1]

/-- A search that looks at all entries needs no order. -/
def scanAll : SortSearch where
  le _ _ := True
  qsort l := l
  bsearch j l := l.contains j
  perm _ := .refl _
  sorts _ := List.pairwise_of_forall fun _ _ => trivial
  finds _ _ _ := List.contains_iff_mem

theorem revokedJti_found :
    (([.revoke true (lit "a"), .isRevoked (lit "b"), .revoke true (lit "b")].foldl
      (call scanAll) ({}, [])).1.isRevoked scanAll (lit "b")).1 = true :=
  (isRevoked_iff_revoked scanAll _ (by simp [IsJti]; decide) (lit "b")
    (by unfold IsJti; decide)).mpr
    (by decide)

end RevocationList

end SsoSystem
