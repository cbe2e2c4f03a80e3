/-
SsoSystem.Storage.LinkTheorems — the tables that link users, roles, groups and
policies in the in-memory backend, against what they stand for.

A link table is a list of rows: an assignment appends a row, taking it back
removes the first row that is equal, and deleting a group removes rows by
column.
-/
import Mathlib.Data.List.Count
import Mathlib.Data.List.Induction
import Mathlib.Data.List.Nodup
import SsoSystem.Storage.MemoryTheorems

namespace SsoSystem

open CMem List

/-! ## §1 Deleting a group -/

section Filter

variable {α : Type}

/-- Removing the first match removes all of them exactly if there is at most one. -/
theorem eraseP_eq_filter_iff (p : α → Bool) (l : List α) :
    l.eraseP p = l.filter (fun x => !p x) ↔ l.countP p ≤ 1 := by
  induction l with
  | nil => simp
  | cons x l ih =>
    by_cases hx : p x = true
    · rw [eraseP_cons_of_pos hx, filter_cons_of_neg (by simp [hx]),
        countP_cons_of_pos hx, eq_comm, filter_eq_self]
      simp [countP_eq_zero]
    · rw [eraseP_cons_of_neg hx, filter_cons_of_pos (by simp [hx]),
        countP_cons_of_neg hx, cons.injEq]
      simp [ih]

theorem filter_eq_filter_iff (p q : α → Bool) (l : List α) :
    l.filter p = l.filter q ↔ ∀ x ∈ l, (p x = true ↔ q x = true) := by
  constructor
  · intro h x hx
    have hmem : x ∈ l.filter p ↔ x ∈ l.filter q := by rw [h]
    simpa [hx] using hmem
  · intro h
    exact filter_congr fun x hx => Bool.eq_iff_iff.mpr (h x hx)

end Filter

namespace Store

variable (s : Store)

/-- The store without a group: the group, the rows that name it as a group and the policies
assigned to it are gone, everything else is as it was. -/
def withoutGroup (gid : Nat) : Store :=
  { s with
    groups := s.groups.filter fun g => !(g.id == gid)
    userGroups := s.userGroups.filter fun row => !(row.1 == gid)
    roleGroups := s.roleGroups.filter fun row => !(row.2 == gid)
    policyAssignments := s.policyAssignments.filter fun a =>
      !(a.targetType == .group && a.targetId == gid) }

/-- Deleting a group that exists gives the store without it exactly if its id is that of one
group, and the rows of the two link tables that have this id in the column of the roles, and of
the users, are those that have it in the column of the groups. -/
theorem groupDelete_frame_iff (gid : Nat) :
    ((s.groupGetById gid).isSome → s.groupDelete gid = .ok (s.withoutGroup gid)) ↔
      ((s.groupGetById gid).isSome →
        s.groups.countP (fun g => g.id == gid) ≤ 1 ∧
        (∀ row ∈ s.roleGroups, (row.1 = gid ↔ row.2 = gid)) ∧
        (∀ row ∈ s.userGroups, (row.2 = gid ↔ row.1 = gid))) := by
  refine forall_congr' fun hsome => ?_
  have hroles : plRmByA s.roleGroups gid = s.roleGroups.filter (fun row => !(row.2 == gid)) ↔
      ∀ row ∈ s.roleGroups, (row.1 = gid ↔ row.2 = gid) := by
    rw [plRmByA, filter_eq_filter_iff]
    simp [not_iff_not]
  have husers : plRmByB s.userGroups gid = s.userGroups.filter (fun row => !(row.1 == gid)) ↔
      ∀ row ∈ s.userGroups, (row.2 = gid ↔ row.1 = gid) := by
    rw [plRmByB, filter_eq_filter_iff]
    simp [not_iff_not]
  rw [groupDelete, if_pos hsome, Except.ok.injEq, ← eraseP_eq_filter_iff, ← hroles, ← husers]
  simp [withoutGroup, alRmByTarget]

/-- Two users and two groups; user 1 is in group 2 and user 2 in group 1. -/
def twoGroups : Store :=
  { memOpen with
    users := [{ id := 1, username := lit "ann", phone := [], status := .active },
      { id := 2, username := lit "bob", phone := [], status := .active }]
    groups := [{ id := 1, name := lit "sales", parentGroupId := 0, status := .active },
      { id := 2, name := lit "staff", parentGroupId := 0, status := .active }]
    userGroups := [(2, 1), (1, 2)]
    nextUid := 3
    nextGid := 3 }

/-- Deleting group 1 takes user 1 out of group 2, and user 2 stays a member of group 1. -/
theorem twoGroups_deleted : ∃ s', twoGroups.groupDelete 1 = .ok s' ∧
    twoGroups.getUserGroups 1 64 = [2] ∧ s'.getUserGroups 1 64 = [] ∧ s'.getGroupUsers 1 64 = [2] :=
  ⟨_, rfl, by decide +kernel, by decide +kernel, by decide +kernel⟩

end Store

/-! ## §2 Histories of calls -/

/-- A row of a link table. -/
inductive Link where
  | userRole (rid uid : Nat)
  | roleGroup (rid gid : Nat)
  | userGroup (gid uid : Nat)
  | policy (pid : Nat) (tt : TargetType) (tid : Nat)
  deriving DecidableEq, Repr

/-- Whether one of the queries lists the row: there is none for the roles of a group. -/
def Link.listed : Link → Bool
  | .userRole _ _ | .userGroup _ _ | .policy _ _ _ => true
  | .roleGroup _ _ => false

inductive LinkCall where
  | assign (l : Link)
  | unassign (l : Link)
  deriving DecidableEq, Repr

namespace LinkCall

def link : LinkCall → Link
  | .assign l | .unassign l => l

def isAssign : LinkCall → Bool
  | .assign _ => true
  | .unassign _ => false

/-- The call of the in-memory backend. -/
def write : LinkCall → StoreWrite
  | .assign (.userRole rid uid) => .assignRoleToUser rid uid
  | .assign (.roleGroup rid gid) => .assignRoleToGroup rid gid
  | .assign (.userGroup gid uid) => .addUserToGroup gid uid
  | .assign (.policy pid tt tid) => .assignPolicy pid tt tid
  | .unassign (.userRole rid uid) => .unassignRoleFromUser rid uid
  | .unassign (.roleGroup rid gid) => .unassignRoleFromGroup rid gid
  | .unassign (.userGroup gid uid) => .removeUserFromGroup gid uid
  | .unassign (.policy pid tt tid) => .unassignPolicy pid tt tid

/-- How often a row is in its table after a call for it. -/
def move : LinkCall → Nat → Nat
  | .assign _, n => n + 1
  | .unassign _, n => n - 1

end LinkCall

/-- Whether the last call for the row was an assignment. -/
def lastAssigned (l : Link) (calls : List LinkCall) : Bool :=
  calls.foldl (fun last c => if c.link = l then c.isAssign else last) false

@[simp] theorem lastAssigned_nil (l : Link) : lastAssigned l [] = false := rfl

@[simp] theorem lastAssigned_snoc (l : Link) (calls : List LinkCall) (c : LinkCall) :
    lastAssigned l (calls ++ [c]) = if c.link = l then c.isAssign else lastAssigned l calls := by
  simp [lastAssigned]

/-! ## §3 The in-memory lists count -/

namespace Store

variable (s : Store) (l : Link) (calls : List LinkCall)

/-- A call on the store; the calls for links do not fail. -/
def call (c : LinkCall) : Store :=
  match c.write.apply s with
  | .ok s' => s'
  | .error _ => s

/-- The store with no links. -/
def unlinked : Store :=
  { s with userRoles := [], roleGroups := [], userGroups := [], policyAssignments := [] }

/-- The store after a history of calls that starts without links. -/
def afterCalls : Store := calls.foldl call s.unlinked

@[simp] theorem afterCalls_snoc (c : LinkCall) :
    s.afterCalls (calls ++ [c]) = (s.afterCalls calls).call c := by
  simp [afterCalls]

def linkCount : Link → Nat
  | .userRole rid uid => s.userRoles.count (rid, uid)
  | .roleGroup rid gid => s.roleGroups.count (rid, gid)
  | .userGroup gid uid => s.userGroups.count (gid, uid)
  | .policy pid tt tid => s.policyAssignments.count ⟨pid, tt, tid⟩

theorem linkCount_unlinked : s.unlinked.linkCount l = 0 := by
  cases l <;> rfl

theorem eraseP_pair (rows : List (Nat × Nat)) (a b : Nat) :
    rows.eraseP (fun p => p.1 == a && p.2 == b) = rows.erase (a, b) := by
  rw [erase_eq_eraseP']
  congr 1

theorem eraseP_assignment (rows : List Assignment) (pid tid : Nat) (tt : TargetType) :
    rows.eraseP (fun a => a.policyId == pid && a.targetType == tt && a.targetId == tid) =
      rows.erase ⟨pid, tt, tid⟩ := by
  rw [erase_eq_eraseP']
  congr 1
  funext ⟨p, t, i⟩
  exact Bool.eq_iff_iff.mpr (by simp [and_assoc])

theorem count_snoc {α : Type} [BEq α] [LawfulBEq α] [DecidableEq α] (rows : List α) (x y : α) :
    (rows ++ [x]).count y = if x = y then rows.count y + 1 else rows.count y := by
  rw [count_append, count_singleton]
  by_cases h : x = y <;> simp [h]

theorem count_erase_eq {α : Type} [BEq α] [LawfulBEq α] [DecidableEq α] (rows : List α) (x y : α) :
    (rows.erase x).count y = if x = y then rows.count y - 1 else rows.count y := by
  rw [count_erase]
  by_cases h : x = y <;> simp [h]

theorem linkCount_call (s : Store) (c : LinkCall) (l : Link) :
    (s.call c).linkCount l = if c.link = l then c.move (s.linkCount l) else s.linkCount l := by
  cases c with
  | assign k =>
    cases k <;> cases l <;>
      simp only [call, LinkCall.write, StoreWrite.apply, LinkCall.link, LinkCall.move, linkCount,
        assignRoleToUser, assignRoleToGroup, addUserToGroup, assignPolicy, count_snoc,
        reduceCtorEq, if_false, Link.userRole.injEq, Link.roleGroup.injEq, Link.userGroup.injEq,
        Link.policy.injEq, Prod.mk.injEq, Assignment.mk.injEq]
  | unassign k =>
    cases k <;> cases l <;>
      simp only [call, LinkCall.write, StoreWrite.apply, LinkCall.link, LinkCall.move, linkCount,
        unassignRoleFromUser, unassignRoleFromGroup, removeUserFromGroup, unassignPolicy,
        eraseP_pair, eraseP_assignment, count_erase_eq, reduceCtorEq, if_false,
        Link.userRole.injEq, Link.roleGroup.injEq, Link.userGroup.injEq, Link.policy.injEq,
        Prod.mk.injEq, Assignment.mk.injEq]

/-- At every point of the history the row is in its table once or not at all, as the last call
says, exactly if it is never assigned twice in a row. -/
theorem linkCount_iff :
    (∀ before after, calls = before ++ after →
        (s.afterCalls before).linkCount l = (lastAssigned l before).toNat) ↔
      ∀ before after, calls = before ++ .assign l :: after → lastAssigned l before = false := by
  constructor
  · intro h before after heq
    have hbefore := h before _ heq
    have hnext := h (before ++ [.assign l]) after (by rw [heq, append_assoc]; rfl)
    simp only [afterCalls_snoc, linkCount_call, lastAssigned_snoc, LinkCall.link,
      LinkCall.isAssign, LinkCall.move, if_true, hbefore] at hnext
    cases hlast : lastAssigned l before with
    | false => rfl
    | true => simp [hlast] at hnext
  · intro h before
    induction before using reverseRecOn with
    | nil => exact fun _ _ => linkCount_unlinked s l
    | append_singleton before c ih =>
      intro after heq
      rw [append_assoc] at heq
      have hcount := ih _ heq
      rw [afterCalls_snoc, linkCount_call, lastAssigned_snoc]
      split
      · next hlink =>
        rw [hcount]
        cases c with
        | assign k =>
          obtain rfl : k = l := hlink
          simp [h before after heq, LinkCall.move, LinkCall.isAssign]
        | unassign k => cases lastAssigned l before <;> rfl
      · exact hcount

end Store

/-! ## §4 What the queries list -/

/-- A query lists exactly the members of `S`, each once, as far as its output array goes. -/
structure ListsExactly (query : Nat → List Nat) (S : Nat → Bool) : Prop where
  nodup : ∀ max, (query max).Nodup
  sound : ∀ max, ∀ x ∈ query max, S x = true
  complete : ∀ max, (query max).length < max → ∀ x, S x = true → x ∈ query max

theorem listsExactly_take_iff (xs : List Nat) (S : Nat → Bool) :
    ListsExactly (fun max => xs.take max) S ↔ ∀ x, xs.count x = (S x).toNat := by
  constructor
  · intro h x
    have hnodup : xs.Nodup := by simpa using h.nodup xs.length
    rw [List.Nodup.count hnodup]
    cases hS : S x with
    | true =>
      have hmem := h.complete (xs.length + 1) (by simp) x hS
      rw [if_pos (mem_of_mem_take hmem)]
      rfl
    | false =>
      rw [if_neg fun hx => ?_]
      · rfl
      · have := h.sound xs.length x (by simpa using hx)
        simp [hS] at this
  · intro h
    have hnodup : xs.Nodup := nodup_iff_count_le_one.mpr fun x => by
      rw [h]
      exact Bool.toNat_le _
    have hmem : ∀ x, x ∈ xs ↔ S x = true := by
      intro x
      rw [← count_pos_iff, h]
      cases S x <;> simp
    refine ⟨fun max => hnodup.take, fun max x hx => (hmem x).mp (mem_of_mem_take hx), ?_⟩
    intro max hroom x hx
    rw [take_of_length_le (by rw [length_take] at hroom; omega)]
    exact (hmem x).mpr hx

theorem count_map_filter {α : Type} [BEq α] [LawfulBEq α] (rows : List α) (key : α → Bool)
    (f : α → Nat)
    (x : Nat) (row : α) (hrow : ∀ r, key r = true ∧ f r = x ↔ r = row) :
    ((rows.filter key).map f).count x = rows.count row := by
  rw [count, countP_map, countP_filter, count]
  refine countP_congr fun r _ => ?_
  simp [← hrow r, and_comm]

namespace Store

variable (s : Store)

theorem listsExactly_getUserRoles (uid : Nat) (S : Nat → Bool) :
    ListsExactly (s.getUserRoles uid) S ↔
      ∀ rid, s.linkCount (.userRole rid uid) = (S rid).toNat := by
  refine (listsExactly_take_iff _ S).trans (forall_congr' fun rid => ?_)
  rw [count_map_filter s.userRoles _ _ rid (rid, uid)]
  · rfl
  · simp [Prod.ext_iff, and_comm]

theorem listsExactly_getUserGroups (uid : Nat) (S : Nat → Bool) :
    ListsExactly (s.getUserGroups uid) S ↔
      ∀ gid, s.linkCount (.userGroup gid uid) = (S gid).toNat := by
  refine (listsExactly_take_iff _ S).trans (forall_congr' fun gid => ?_)
  rw [count_map_filter s.userGroups _ _ gid (gid, uid)]
  · rfl
  · simp [Prod.ext_iff, and_comm]

theorem listsExactly_getTargetPolicies (tt : TargetType) (tid : Nat) (S : Nat → Bool) :
    ListsExactly (s.getTargetPolicies tt tid) S ↔
      ∀ pid, s.linkCount (.policy pid tt tid) = (S pid).toNat := by
  refine (listsExactly_take_iff _ S).trans (forall_congr' fun pid => ?_)
  rw [count_map_filter s.policyAssignments _ _ pid ⟨pid, tt, tid⟩]
  · rfl
  · rintro ⟨p, t, i⟩
    simp [and_comm]

end Store

/-! ## §5 The SQLite tables -/

/-- The link tables of SQLite, all rows in one list: each table has all its columns as its
primary key. -/
abbrev SqliteLinks := List Link

namespace SqliteLinks

/-- `INSERT OR IGNORE`, and `DELETE` with all columns given. -/
def call (rows : SqliteLinks) : LinkCall → SqliteLinks
  | .assign l => if l ∈ rows then rows else rows ++ [l]
  | .unassign l => rows.filter fun row => row ≠ l

def afterCalls (calls : List LinkCall) : SqliteLinks := calls.foldl call []

theorem nodup_afterCalls (calls : List LinkCall) : (afterCalls calls).Nodup := by
  induction calls using reverseRecOn with
  | nil => exact nodup_nil
  | append_singleton calls c ih =>
    rw [afterCalls, foldl_append, foldl_cons, foldl_nil]
    cases c with
    | assign l =>
      rw [call]
      split
      · exact ih
      · next hl => exact nodup_append_comm.mp (nodup_cons.mpr ⟨hl, ih⟩)
    | unassign l => exact ih.filter _

theorem mem_afterCalls (l : Link) (calls : List LinkCall) :
    l ∈ afterCalls calls ↔ lastAssigned l calls = true := by
  induction calls using reverseRecOn with
  | nil => simp [afterCalls]
  | append_singleton calls c ih =>
    rw [afterCalls] at ih
    rw [afterCalls, foldl_append, foldl_cons, foldl_nil, lastAssigned_snoc]
    cases c with
    | assign k =>
      by_cases hk : k = l
      · subst hk
        by_cases hmem : k ∈ List.foldl call [] calls <;>
          simp [call, LinkCall.link, LinkCall.isAssign, hmem]
      · by_cases hmem : k ∈ List.foldl call [] calls <;>
          simp [call, LinkCall.link, hmem, hk, Ne.symm hk, ih]
    | unassign k =>
      by_cases hk : k = l
      · simp [call, LinkCall.link, LinkCall.isAssign, hk]
      · simp [call, LinkCall.link, hk, Ne.symm hk, ih]

end SqliteLinks

/-! ## §6 Sets -/

/-- After the calls both backends have the rows whose last call was an assignment: the queries
of the in-memory backend list them, each once, and the SQLite tables hold them, each once. -/
structure AreSets (s : Store) (calls : List LinkCall) : Prop where
  userRoles : ∀ uid, ListsExactly ((s.afterCalls calls).getUserRoles uid)
    fun rid => lastAssigned (.userRole rid uid) calls
  userGroups : ∀ uid, ListsExactly ((s.afterCalls calls).getUserGroups uid)
    fun gid => lastAssigned (.userGroup gid uid) calls
  targetPolicies : ∀ tt tid, ListsExactly ((s.afterCalls calls).getTargetPolicies tt tid)
    fun pid => lastAssigned (.policy pid tt tid) calls
  sqlite : (SqliteLinks.afterCalls calls).Nodup ∧
    ∀ l, l ∈ SqliteLinks.afterCalls calls ↔ lastAssigned l calls = true

theorem areSets_iff_linkCount (s : Store) (calls : List LinkCall) :
    AreSets s calls ↔ ∀ l : Link, l.listed = true →
      (s.afterCalls calls).linkCount l = (lastAssigned l calls).toNat := by
  constructor
  · intro h l hl
    cases l with
    | userRole rid uid => exact (Store.listsExactly_getUserRoles _ _ _).mp (h.userRoles uid) rid
    | roleGroup rid gid => cases hl
    | userGroup gid uid => exact (Store.listsExactly_getUserGroups _ _ _).mp (h.userGroups uid) gid
    | policy pid tt tid =>
      exact (Store.listsExactly_getTargetPolicies _ _ _ _).mp (h.targetPolicies tt tid) pid
  · intro h
    refine ⟨fun uid => ?_, fun uid => ?_, fun tt tid => ?_, ?_⟩
    · exact (Store.listsExactly_getUserRoles _ _ _).mpr fun rid => h (.userRole rid uid) rfl
    · exact (Store.listsExactly_getUserGroups _ _ _).mpr fun gid => h (.userGroup gid uid) rfl
    · exact (Store.listsExactly_getTargetPolicies _ _ _ _).mpr fun pid => h (.policy pid tt tid) rfl
    · exact ⟨SqliteLinks.nodup_afterCalls calls, fun l => SqliteLinks.mem_afterCalls l calls⟩

/-- At every point of a history the assignments are sets exactly if none that a query lists is
made while it holds. -/
theorem assignments_are_sets_iff (s : Store) (calls : List LinkCall) :
    (∀ before after, calls = before ++ after → AreSets s before) ↔
      ∀ before l after, calls = before ++ .assign l :: after → l.listed = true →
        lastAssigned l before = false := by
  simp only [areSets_iff_linkCount]
  constructor
  · intro h before l after heq hl
    exact (s.linkCount_iff l calls).mp (fun b a hba => h b a hba l hl) before after heq
  · intro h before after heq l hl
    exact (s.linkCount_iff l calls).mpr (fun b a hba => h b l a hba hl) before after heq

/-- A role is given twice and taken back once: the user keeps it, though in SQLite it is gone. -/
theorem repeated_assign_survives :
    (memOpen.afterCalls [.assign (.userRole 3 7), .assign (.userRole 3 7),
        .unassign (.userRole 3 7)]).getUserRoles 7 64 = [3] ∧
      Link.userRole 3 7 ∉ SqliteLinks.afterCalls [.assign (.userRole 3 7),
        .assign (.userRole 3 7), .unassign (.userRole 3 7)] ∧
      lastAssigned (.userRole 3 7) [.assign (.userRole 3 7), .assign (.userRole 3 7),
        .unassign (.userRole 3 7)] = false := by
  decide +kernel

end SsoSystem
