/-
SsoSystem.Storage.Listing — the list operations of the in-memory backend
(`MK_LIST` and `mem_user_list` in src/storage_memory.c).

One loop counts the rows that match and writes the ids of those on the page
into the caller's array, at a place computed from the counter. `list_page`:
the page is the part of the matching rows from `offset` on, at most `limit` of
them, and consecutive pages make up the whole.
-/
import SsoSystem.Storage.IntegrityTheorems

namespace SsoSystem

open CMem List

/-! ## §1 The operations -/

/-- The statuses as C `int`s. -/
def UserStatus.code : UserStatus → Int
  | .inactive => 0
  | .active => 1
  | .locked => 2
  | .other code => code

def RoleStatus.code : RoleStatus → Int
  | .inactive => 0
  | .active => 1
  | .other code => code

def GroupStatus.code : GroupStatus → Int
  | .inactive => 0
  | .active => 1
  | .other code => code

def PolicyStatus.code : PolicyStatus → Int
  | .disabled => 0
  | .enabled => 1
  | .other code => code

/-- What a list operation leaves: the array, and the two numbers. -/
structure Listing where
  ids : Nat → Nat
  count : Nat
  total : Nat

/-- A row that matches: `match++`, and its id goes into the array if it is on the page. -/
def listTurn (offset limit : Nat) (st : Nat × (Nat → Nat)) (id : Nat) : Nat × (Nat → Nat) :=
  if st.1 < offset then (st.1 + 1, st.2)
  else if st.1 + 1 - 1 - offset ≥ limit then (st.1 + 1, st.2)
  else (st.1 + 1, Function.update st.2 (st.1 + 1 - 1 - offset) id)

/-- The loop of `MK_LIST` over the rows, and the numbers computed behind it. -/
def memList {α : Type} (rows : List α) (keep : α → Bool) (id : α → Nat) (offset limit : Nat)
    (ids : Nat → Nat) : Listing :=
  let st := rows.foldl (fun st row => if keep row then listTurn offset limit st (id row) else st)
    (0, ids)
  { ids := st.2
    total := st.1
    count := if st.1 > offset then (if st.1 - offset > limit then limit else st.1 - offset) else 0 }

/-- `status` is -1 or the row's, and the text, if there is one, is in one of the fields. -/
def listKeeps (q : Option Bytes) (status rowStatus : Int) (fields : List Bytes) : Bool :=
  (status == -1 || rowStatus == status) && q.all fun text =>
    cstr text == [] || fields.any fun field => (strstr (cstr text) (cstr field)).isSome

namespace Store

variable (s : Store) (q : Option Bytes) (status : Int)

def keepsUser (u : User) : Bool :=
  listKeeps q status u.status.code [u.username, u.displayName, u.email, u.phone]

def keepsRole (r : Role) : Bool := listKeeps q status r.status.code [r.name]
def keepsGroup (g : Group) : Bool := listKeeps q status g.status.code [g.name]
def keepsPolicy (p : Policy) : Bool := listKeeps q status p.status.code [p.name]

/-- `mem_user_list`, `mem_role_list`, `mem_group_list` and `mem_policy_list`, with an `offset`
and a `limit` that are not negative. -/
def list (offset limit : Nat) (ids : Nat → Nat) : EntityKind → Listing
  | .user => memList s.users (keepsUser q status) User.id offset limit ids
  | .role => memList s.roles (keepsRole q status) Role.id offset limit ids
  | .group => memList s.groups (keepsGroup q status) Group.id offset limit ids
  | .policy => memList s.policies (keepsPolicy q status) Policy.id offset limit ids

/-- The ids of the rows that match, in the order of insertion. -/
def matching : EntityKind → List Nat
  | .user => (s.users.filter (keepsUser q status)).map User.id
  | .role => (s.roles.filter (keepsRole q status)).map Role.id
  | .group => (s.groups.filter (keepsGroup q status)).map Group.id
  | .policy => (s.policies.filter (keepsPolicy q status)).map Policy.id

end Store

/-! ## §2 The loop -/

theorem foldl_keep {α σ : Type} {keep : α → Bool} {id : α → Nat} {f : σ → Nat → σ} (st : σ)
    (rows : List α) : rows.foldl (fun st row => if keep row then f st (id row) else st) st =
      ((rows.filter keep).map id).foldl f st := by
  induction rows generalizing st with
  | nil => rfl
  | cons row rows ih =>
    by_cases h : keep row = true
    · simp [h, ih]
    · simp [h, ih]

/-- After the matching rows `xs`, with `m` before them: place `i` of the array has the row that
is number `offset + i`, if that is one of `xs` and on the page. -/
theorem foldl_listTurn (offset limit m : Nat) (ids : Nat → Nat) (xs : List Nat) :
    xs.foldl (listTurn offset limit) (m, ids) = (m + xs.length, fun i =>
      if m ≤ offset + i ∧ offset + i < m + xs.length ∧ i < limit then xs.getD (offset + i - m) 0
      else ids i) := by
  induction xs generalizing m ids with
  | nil =>
    refine Prod.ext rfl (funext fun i => (if_neg ?_).symm)
    rw [length_nil]
    omega
  | cons x xs ih =>
    have hturn : listTurn offset limit (m, ids) x =
        (m + 1, fun i => if offset + i = m ∧ i < limit then x else ids i) := by
      unfold listTurn
      refine Prod.ext (by split_ifs <;> rfl) (funext fun i => ?_)
      split_ifs <;> simp only [Function.update_apply] <;> grind
    rw [foldl_cons, hturn, ih, length_cons]
    refine Prod.ext (by simp; omega) (funext fun i => ?_)
    by_cases hi : offset + i = m
    · subst hi
      simp
    · by_cases hlt : m < offset + i
      · have hsub : offset + i - m = offset + i - (m + 1) + 1 := by omega
        simp only [hi, false_and, if_false, hsub, getD_cons_succ]
        congr 1
        exact propext (by omega)
      · dsimp only
        rw [if_neg (by omega), if_neg (by omega), if_neg (by omega)]

theorem memList_spec {α : Type} (rows : List α) (keep : α → Bool) (id : α → Nat)
    (offset limit : Nat) (ids : Nat → Nat) :
    (memList rows keep id offset limit ids).total = ((rows.filter keep).map id).length ∧
      (List.range (memList rows keep id offset limit ids).count).map
          (memList rows keep id offset limit ids).ids =
        (((rows.filter keep).map id).drop offset).take limit := by
  unfold memList
  rw [foldl_keep, foldl_listTurn]
  generalize (rows.filter keep).map id = xs
  refine ⟨Nat.zero_add _, ext_getElem ?_ fun i hi hi' => ?_⟩
  · simp only [length_map, length_range, length_take, length_drop]
    split_ifs <;> omega
  · rw [length_take, length_drop] at hi'
    simp only [getElem_map, getElem_range, getElem_take, getElem_drop]
    rw [if_pos (by omega)]
    exact (getElem_eq_getD 0).symm

/-! ## §3 Pages -/

theorem flatMap_pages {α : Type} (xs : List α) (limit n : Nat) :
    (List.range n).flatMap (fun p => (xs.drop (p * limit)).take limit) = xs.take (n * limit) := by
  induction n with
  | zero => simp
  | succ n ih =>
    rw [range_succ, flatMap_append, ih, flatMap_singleton, Nat.succ_mul, take_add]

/-- The page of a list operation is the part of the matching ids that it asks for, `count` is
how many that is and `total` the number of all; as many pages as it takes make up all matching
ids. -/
theorem list_page (s : Store) (k : EntityKind) (q : Option Bytes) (status : Int)
    (offset limit : Nat) (ids : Nat → Nat) :
    (s.list q status offset limit ids k).total = (s.matching q status k).length ∧
      (List.range (s.list q status offset limit ids k).count).map
          (s.list q status offset limit ids k).ids =
        ((s.matching q status k).drop offset).take limit ∧
      ∀ n, (s.matching q status k).length ≤ n * limit → (List.range n).flatMap (fun p =>
          (List.range (s.list q status (p * limit) limit ids k).count).map
            (s.list q status (p * limit) limit ids k).ids) = s.matching q status k := by
  have hspec : ∀ offset, (s.list q status offset limit ids k).total =
        (s.matching q status k).length ∧
      (List.range (s.list q status offset limit ids k).count).map
          (s.list q status offset limit ids k).ids =
        ((s.matching q status k).drop offset).take limit := by
    intro offset
    cases k <;> exact memList_spec ..
  refine ⟨(hspec offset).1, (hspec offset).2, fun n hn => ?_⟩
  simp only [(hspec _).2]
  rw [flatMap_pages, take_of_length_le hn]

end SsoSystem
