/-
SsoSystem.Storage.UniquenessTheorems — ids and names that tell the records of
the in-memory backend apart.

The SQLite schema has a primary key and unique columns: user names, phone
numbers, and the names of roles, groups and policies. The in-memory backend
checks some of it when a record is created and nothing when one is updated.
-/
import Mathlib.Data.List.Nodup
import SsoSystem.Storage.IntegrityTheorems

namespace SsoSystem

open CMem Run List Option

/-! ## §1 Tables with a unique column -/

section Keys

variable {α : Type} {id : α → Nat} {key : α → Option Bytes} {rows : List α} {x : α}

/-- No two rows have the same key; a row without one (`none`) is like no other. -/
def KeysDistinct (key : α → Option Bytes) (rows : List α) : Prop :=
  rows.Pairwise fun y z => ∀ k, key y = some k → key z ≠ some k

/-- None of the rows has the key of `x`. -/
def KeyFree (key : α → Option Bytes) (rows : List α) (x : α) : Prop :=
  ∀ y ∈ rows, ∀ k, key y = some k → key x ≠ some k

theorem keysDistinct_append :
    KeysDistinct key (rows ++ [x]) ↔ KeysDistinct key rows ∧ KeyFree key rows x := by
  simp [KeysDistinct, KeyFree, pairwise_append]

theorem KeysDistinct.eraseP (h : KeysDistinct key rows) (p : α → Bool) :
    KeysDistinct key (rows.eraseP p) :=
  h.sublist eraseP_sublist

theorem exists_replaceFirst (hmem : id x ∈ rows.map id) : ∃ front old back,
    rows = front ++ old :: back ∧ id old = id x ∧
      replaceFirst (fun y => id y == id x) x rows = front ++ x :: back := by
  induction rows with
  | nil => cases hmem
  | cons y rows ih =>
    by_cases hy : id y = id x
    · exact ⟨[], y, rows, rfl, hy, by simp [replaceFirst, hy]⟩
    · have hrest : id x ∈ rows.map id := by simpa [Ne.symm hy] using hmem
      obtain ⟨front, old, back, rfl, hold, hreplace⟩ := ih hrest
      exact ⟨y :: front, old, back, rfl, hold, by simp [replaceFirst, hy, hreplace]⟩

theorem replaceFirst_of_not_mem (hmem : id x ∉ rows.map id) :
    replaceFirst (fun y => id y == id x) x rows = rows := by
  induction rows with
  | nil => rfl
  | cons y rows ih =>
    rw [map_cons, mem_cons, not_or] at hmem
    rw [replaceFirst, if_neg (by simpa using Ne.symm hmem.1), ih hmem.2]

/-- The other rows of a table. -/
def others (id : α → Nat) (rows : List α) (x : α) : List α := rows.filter fun y => id y ≠ id x

/-- Overwriting keeps the keys distinct exactly if no other row has the new one. -/
theorem keysDistinct_replaceFirst_iff (hids : (rows.map id).Nodup) (hmem : id x ∈ rows.map id)
    (h : KeysDistinct key rows) :
    KeysDistinct key (replaceFirst (fun y => id y == id x) x rows) ↔
      KeyFree key (others id rows x) x := by
  obtain ⟨front, old, back, rfl, hold, hreplace⟩ := exists_replaceFirst hmem
  rw [hreplace]
  have hothers : others id (front ++ old :: back) x = front ++ back := by
    rw [map_append, map_cons, hold, nodup_append, nodup_cons] at hids
    obtain ⟨-, ⟨hback, -⟩, hfront⟩ := hids
    rw [others, filter_append, filter_cons_of_neg (by simp [hold])]
    congr 1
    · refine filter_eq_self.mpr fun y hy => ?_
      simpa using hfront (id y) (mem_map_of_mem hy) (id x) mem_cons_self
    · refine filter_eq_self.mpr fun y hy => ?_
      rw [decide_eq_true_iff]
      exact fun heq => hback (heq ▸ mem_map_of_mem hy)
  rw [hothers]
  simp only [KeysDistinct, KeyFree, pairwise_append, pairwise_cons, mem_append, mem_cons] at h ⊢
  obtain ⟨hfront, ⟨-, hback⟩, hcross⟩ := h
  constructor
  · rintro ⟨-, ⟨hx, -⟩, hfx⟩ y (hy | hy) k hyk hxk
    · exact hfx y hy x (.inl rfl) k hyk hxk
    · exact hx y hy k hxk hyk
  · intro hfree
    refine ⟨hfront, ⟨fun y hy k hxk hyk => hfree y (.inr hy) k hyk hxk, hback⟩, ?_⟩
    rintro y hy z (rfl | hz)
    · exact hfree y (.inl hy)
    · exact hcross y hy z (.inr hz)

end Keys

/-! ## §2 The property -/

namespace Store

/-- A text as a key, unless it is empty. -/
def nonempty (text : Bytes) : Option Bytes := if cstr text = [] then none else some (cstr text)

/-- The unique columns of the schema. -/
structure NamesDistinct (s : Store) : Prop where
  usernames : KeysDistinct (fun u : User => nonempty u.username) s.users
  phones : KeysDistinct (fun u : User => nonempty u.phone) s.users
  roles : KeysDistinct (fun r : Role => some (cstr r.name)) s.roles
  groups : KeysDistinct (fun g : Group => some (cstr g.name)) s.groups
  policies : KeysDistinct (fun p : Policy => some (cstr p.name)) s.policies

end Store

namespace StoreWrite

def isUpdate : StoreWrite → Bool
  | .userUpdate _ | .roleUpdate _ | .groupUpdate _ | .policyUpdate _ => true
  | _ => false

/-- The store with the record of an update in place of the one with its id. -/
def overwritten (s : Store) : StoreWrite → Store
  | .userUpdate u => { s with users := replaceFirst (fun v => v.id == u.id) u s.users }
  | .roleUpdate r => { s with roles := replaceFirst (fun v => v.id == r.id) r s.roles }
  | .groupUpdate g => { s with groups := replaceFirst (fun v => v.id == g.id) g s.groups }
  | .policyUpdate p => { s with policies := replaceFirst (fun v => v.id == p.id) p s.policies }
  | _ => s

/-- A created user has no phone number of another user, and an updated record no name and no
phone number of another record. -/
def KeepsApart (s : Store) : StoreWrite → Prop
  | .userCreate u => ¬ (cstr u.username ≠ [] ∧ (s.userGetByName u.username).isSome) →
      KeyFree (fun v : User => Store.nonempty v.phone) s.users u
  | .userUpdate u => (s.userGetById u.id).isSome →
      KeyFree (fun v : User => Store.nonempty v.username) (others User.id s.users u) u ∧
      KeyFree (fun v : User => Store.nonempty v.phone) (others User.id s.users u) u
  | .roleUpdate r => (s.roleGetById r.id).isSome →
      KeyFree (fun v : Role => some (cstr v.name)) (others Role.id s.roles r) r
  | .groupUpdate g => (s.groupGetById g.id).isSome →
      KeyFree (fun v : Group => some (cstr v.name)) (others Group.id s.groups g) g
  | .policyUpdate p => (s.policyGetById p.id).isSome →
      KeyFree (fun v : Policy => some (cstr v.name)) (others Policy.id s.policies p) p
  | _ => True

end StoreWrite

/-- What the schema promises, along a run from the empty store. The id counters are natural
numbers, which is right for fewer than 2^64 creates. -/
structure IdentityHolds (ws : List StoreWrite) : Prop where
  distinct : ∀ before after s, ws = before ++ after →
    run StoreWrite.step before memOpen = some s → (∀ k, (s.ids k).Nodup) ∧ s.NamesDistinct
  /-- An id that appears has not been in the table before. -/
  neverReused : ∀ before w after s s', ws = before ++ w :: after →
    run StoreWrite.step before memOpen = some s → StoreWrite.step s w = some s' →
    ∀ k, ∀ id ∈ s'.ids k, id ∉ s.ids k → ∀ earlier rest t, before = earlier ++ rest →
      run StoreWrite.step earlier memOpen = some t → id ∉ t.ids k
  /-- An update that would break it is refused. -/
  guarded : ∀ before w after s, ws = before ++ w :: after →
    run StoreWrite.step before memOpen = some s → w.isUpdate = true →
    ¬ (w.overwritten s).NamesDistinct → ∃ err, w.apply s = .error err

/-! ## §3 Ids -/

variable {s s' : Store} {w : StoreWrite}

theorem isSome_step (s : Store) (w : StoreWrite) : (StoreWrite.step s w).isSome := by
  unfold StoreWrite.step
  split <;> rfl

theorem idsMove_of_step (h : StoreWrite.step s w = some s') (k : EntityKind) : IdsMove s s' k := by
  unfold StoreWrite.step at h
  split at h
  · next hok =>
    cases h
    exact idsMove_of_apply hok k
  · cases h
    exact .same rfl rfl

/-- Ids are distinct and below their counter. -/
def IdsBelow (s : Store) : Prop := ∀ k, (s.ids k).Nodup ∧ ∀ id ∈ s.ids k, id < s.nextId k

theorem IdsBelow.of_step (h : IdsBelow s) (hw : StoreWrite.step s w = some s') : IdsBelow s' :=
  fun k => (idsMove_of_step hw k).below (h k)

theorem idsBelow_memOpen : IdsBelow memOpen := by
  intro k
  cases k <;> exact ⟨nodup_nil, fun _ h => nomatch h⟩

theorem nextId_le_of_step (hw : StoreWrite.step s w = some s') (k : EntityKind) :
    s.nextId k ≤ s'.nextId k := by
  cases idsMove_of_step hw k with
  | same _ hnext | delete _ _ hnext => exact Nat.le_of_eq hnext.symm
  | create _ hnext => exact hnext ▸ Nat.le_succ _

variable {id : Nat} {k : EntityKind} {t : Store} {c : Prop} {err : SsoError}

theorem eq_nextId_of_step (hw : StoreWrite.step s w = some s')
    (hnew : id ∈ s'.ids k) (hold : id ∉ s.ids k) : id = s.nextId k := by
  cases idsMove_of_step hw k with
  | same hids _ => exact absurd (hids ▸ hnew) hold
  | create hids _ =>
    rw [hids, mem_append, mem_singleton] at hnew
    exact hnew.resolve_left hold
  | delete _ hids _ => exact absurd (mem_of_mem_erase (hids ▸ hnew)) hold

theorem not_mem_earlier {earlier rest : List StoreWrite}
    (ht : run StoreWrite.step earlier memOpen = some t)
    (hs : run StoreWrite.step (earlier ++ rest) memOpen = some s)
    (hw : StoreWrite.step s w = some s') (hnew : id ∈ s'.ids k) (hold : id ∉ s.ids k) :
    id ∉ t.ids k := by
  have hbelow : IdsBelow t := invariant_of_steps (fun _ _ _ => IdsBelow.of_step) idsBelow_memOpen ht
  rw [run_append, ht] at hs
  have hle : t.nextId k ≤ s.nextId k :=
    @invariant_of_steps _ _ _ _ _ _ (fun u => t.nextId k ≤ u.nextId k)
      (fun _ _ _ h hstep => Nat.le_trans h (nextId_le_of_step hstep k)) (Nat.le_refl _) hs
  intro hmem
  have hlt := (hbelow k).2 id hmem
  rw [eq_nextId_of_step hw hnew hold] at hlt
  exact absurd hle (Nat.not_le.mpr hlt)

/-! ## §4 Names -/

theorem cstr_ne_of_find?_eq_none {α : Type} {name : α → Bytes} {rows : List α} {text : Bytes}
    (h : (rows.find? fun y => strEq (name y) text) = none) : ∀ y ∈ rows, cstr (name y) ≠
      cstr text := by
  intro y hy heq
  have := find?_eq_none.mp h y hy
  simp [strEq, heq] at this

theorem keyFree_of_find?_eq_none {α : Type} {name : α → Bytes} {rows : List α} {x : α}
    (h : (rows.find? fun y => strEq (name y) (name x)) = none) :
    KeyFree (fun y => some (cstr (name y))) rows x := by
  intro y hy k hk hx
  exact cstr_ne_of_find?_eq_none h y hy (some.inj (hk.trans hx.symm))

theorem keyFree_username {u : User}
    (h : ¬ (cstr u.username ≠ [] ∧ (s.userGetByName u.username).isSome)) :
    KeyFree (fun v : User => Store.nonempty v.username) s.users u := by
  intro v hv k hvk huk
  have hu : cstr u.username ≠ [] := by
    intro hempty
    simp [Store.nonempty, hempty] at huk
  have hnone : s.userGetByName u.username = none := by simpa [hu] using h
  refine cstr_ne_of_find?_eq_none hnone v hv ?_
  simp only [Store.nonempty, if_neg hu] at hvk huk
  split at hvk
  · cases hvk
  · exact some.inj (hvk.trans huk.symm)

theorem step_of_then [Decidable c] (hw : w.apply s = if c then .ok t else .error err) :
    StoreWrite.step s w = some (if c then t else s) := by
  unfold StoreWrite.step
  rw [hw]
  by_cases hc : c <;> simp [hc]

/-- A write that is done or refused, as `c` says: the names stay distinct exactly if they are
distinct in the store it would leave. -/
theorem namesDistinct_step_of_then [Decidable c]
    (hw : w.apply s = if c then .ok t else .error err) (h : s.NamesDistinct)
    (hstep : StoreWrite.step s w = some s') : s'.NamesDistinct ↔ (c → t.NamesDistinct) := by
  rw [step_of_then hw, some.injEq] at hstep
  subst hstep
  by_cases hc : c
  · simp [hc]
  · simp [hc, h]

theorem namesDistinct_step_of_else [Decidable c]
    (hw : w.apply s = if c then .error err else .ok t) (h : s.NamesDistinct)
    (hstep : StoreWrite.step s w = some s') : s'.NamesDistinct ↔ (¬ c → t.NamesDistinct) :=
  namesDistinct_step_of_then (hw.trans (ite_not ..).symm) h hstep

theorem namesDistinct_step_iff (hids : IdsBelow s) (h : s.NamesDistinct)
    (hstep : StoreWrite.step s w = some s') : s'.NamesDistinct ↔ w.KeepsApart s := by
  cases w with
  | userCreate u =>
    refine (namesDistinct_step_of_else rfl h hstep).trans (forall_congr' fun hfree =>
      ⟨fun ht => ((keysDistinct_append (x := { u with id := s.nextUid })).mp ht.phones).2,
        fun hphone => ?_⟩)
    exact { h with
      usernames := keysDistinct_append.mpr ⟨h.usernames, keyFree_username hfree⟩
      phones := keysDistinct_append.mpr ⟨h.phones, hphone⟩ }
  | roleCreate | groupCreate | policyCreate =>
    refine (namesDistinct_step_of_else rfl h hstep).trans (iff_of_true (fun hfree => ?_) trivial)
    obtain ⟨husernames, hphones, hroles, hgroups, hpolicies⟩ := h
    constructor <;> first
      | assumption
      | exact keysDistinct_append.mpr
          ⟨by assumption, keyFree_of_find?_eq_none (not_isSome_iff_eq_none.mp hfree)⟩
  | userUpdate u =>
    refine (namesDistinct_step_of_then rfl h hstep).trans (forall_congr' fun hsome => ?_)
    have hname := @keysDistinct_replaceFirst_iff _ _ _ _ u (hids .user).1
      (isSome_find?_iff.mp hsome) h.usernames
    have hphone := @keysDistinct_replaceFirst_iff _ _ _ _ u (hids .user).1
      (isSome_find?_iff.mp hsome) h.phones
    rw [← hname, ← hphone]
    exact ⟨fun ht => ⟨ht.usernames, ht.phones⟩,
      fun ⟨hu, hp⟩ => { h with usernames := hu, phones := hp }⟩
  | roleUpdate r =>
    refine (namesDistinct_step_of_then rfl h hstep).trans (forall_congr' fun hsome => ?_)
    rw [← @keysDistinct_replaceFirst_iff _ _ _ _ r (hids .role).1 (isSome_find?_iff.mp hsome)
      h.roles]
    exact ⟨fun ht => ht.roles, fun hr => { h with roles := hr }⟩
  | groupUpdate g =>
    refine (namesDistinct_step_of_then rfl h hstep).trans (forall_congr' fun hsome => ?_)
    rw [← @keysDistinct_replaceFirst_iff _ _ _ _ g (hids .group).1 (isSome_find?_iff.mp hsome)
      h.groups]
    exact ⟨fun ht => ht.groups, fun hg => { h with groups := hg }⟩
  | policyUpdate p =>
    refine (namesDistinct_step_of_then rfl h hstep).trans (forall_congr' fun hsome => ?_)
    rw [← @keysDistinct_replaceFirst_iff _ _ _ _ p (hids .policy).1
      (isSome_find?_iff.mp hsome) h.policies]
    exact ⟨fun ht => ht.policies, fun hp => { h with policies := hp }⟩
  | userDelete | roleDelete | groupDelete | policyDelete =>
    refine (namesDistinct_step_of_then rfl h hstep).trans (iff_of_true (fun _ => ?_) trivial)
    obtain ⟨husernames, hphones, hroles, hgroups, hpolicies⟩ := h
    constructor <;> first | assumption | exact KeysDistinct.eraseP (by assumption) _
  | _ =>
    cases hstep
    exact iff_of_true { h with } trivial

theorem namesDistinct_memOpen : memOpen.NamesDistinct :=
  ⟨.nil, .nil, .nil, .nil, .nil⟩

/-- An update either does what it says or has no record to overwrite. -/
theorem overwritten_of_isUpdate (hw : w.isUpdate = true) :
    StoreWrite.step s w = some (w.overwritten s) := by
  cases w with
  | userUpdate | roleUpdate | groupUpdate | policyUpdate =>
    refine (step_of_then rfl).trans (congrArg some (ite_eq_left_iff.mpr fun hnone => ?_))
    rw [StoreWrite.overwritten,
      replaceFirst_of_not_mem fun hmem => hnone (isSome_find?_iff.mpr hmem)]
  | _ => cases hw

/-! ## §5 Runs -/

/-- In a run from the empty store everything that tells records apart holds, exactly if no
write of the run gives a record the name or phone number of another. -/
theorem identity_iff (ws : List StoreWrite) :
    IdentityHolds ws ↔ Along StoreWrite.step (fun s w => w.KeepsApart s) ws memOpen := by
  rw [← forall_reached_iff_along isSome_step (fun _ _ _ => IdsBelow.of_step)
    (fun _ _ _ => namesDistinct_step_iff) idsBelow_memOpen namesDistinct_memOpen]
  constructor
  · intro h before after s heq hrun
    exact (h.distinct before after s heq hrun).2
  · intro h
    refine ⟨fun before after s heq hrun => ⟨fun k => ?_, h before after s heq hrun⟩, ?_, ?_⟩
    · exact (invariant_of_steps (fun _ _ _ => IdsBelow.of_step) idsBelow_memOpen hrun k).1
    · rintro before w after s s' - hrun hstep k id hnew hold earlier rest t rfl ht
      exact not_mem_earlier ht hrun hstep hnew hold
    · intro before w after s heq hrun hupdate hbroken
      -- the state behind the update is reached too
      refine absurd (h (before ++ [w]) after _ (by rw [heq, append_assoc]; rfl) ?_) hbroken
      rw [run_append, hrun, bind_some, run, overwritten_of_isUpdate hupdate]
      rfl

/-- Two roles and two users, then the second role is given the name of the first. -/
def renameWrites : List StoreWrite :=
  [.roleCreate { id := 0, name := lit "admin", parentRoleId := 0, status := .active },
   .roleCreate { id := 0, name := lit "guest", parentRoleId := 0, status := .active },
   .userCreate { id := 0, username := lit "ann", phone := lit "555", status := .active },
   .userCreate { id := 0, username := lit "bob", phone := lit "555", status := .active },
   .roleUpdate { id := 2, name := lit "admin", parentRoleId := 0, status := .active }]

/-- All of it succeeds: two users have one phone number, and two roles are called `admin`. -/
theorem renameWrites_share_names :
    (run StoreWrite.step renameWrites memOpen).map
        (fun s => (s.users.map User.phone, s.roles.map Role.name)) =
      some ([lit "555", lit "555"], [lit "admin", lit "admin"]) ∧ ¬ IdentityHolds renameWrites := by
  have hnames : (run StoreWrite.step renameWrites memOpen).map
      (fun s => (s.users.map User.phone, s.roles.map Role.name)) =
      some ([lit "555", lit "555"], [lit "admin", lit "admin"]) := by decide +kernel
  refine ⟨hnames, fun h => ?_⟩
  obtain ⟨s, hrun, hs⟩ := Option.map_eq_some_iff.mp hnames
  have hroles : (s.roles.map Role.name).Pairwise fun y z => cstr y ≠ cstr z := by
    refine pairwise_map.mpr ?_
    refine (h.distinct renameWrites [] s (append_nil _).symm hrun).2.roles.imp fun hne heq => ?_
    exact hne _ rfl (congrArg some heq.symm)
  rw [(Prod.mk.inj hs).2] at hroles
  exact absurd hroles (by decide)

end SsoSystem
