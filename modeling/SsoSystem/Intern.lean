/-
SsoSystem.Intern — the pool of interned strings (src/intern.c).

A hash table of chains, doubled when three quarters full. An address is the
number of the string's allocation; allocations succeed, and the pool holds
fewer strings than a `size_t` can count. One call runs at a time, so the
second search of the slow path finds what the first has found.
-/
import Mathlib.Data.List.Nodup
import SsoSystem.Lib.CMem

namespace SsoSystem

open CMem List Function

/-! ## §1 The table -/

/-- Chains of strings with their addresses. -/
abbrev Chains := Nat → List (Nat × Bytes)

structure InternTable where
  buckets : Chains := fun _ => []
  capacity : Nat := 1024
  count : Nat := 0

namespace InternTable

/-- `hash_string`: FNV-1a. -/
def hashString (s : Bytes) : UInt64 :=
  s.foldl (fun hash c => (hash ^^^ c.toUInt64) * 1099511628211) 14695981039346656037

def index (capacity : Nat) (s : Bytes) : Nat := (hashString s).toNat &&& (capacity - 1)

/-- A node is put in front of the chain of its string. -/
def link (capacity : Nat) (b : Chains) (n : Nat × Bytes) : Chains :=
  update b (index capacity n.2) (n :: b (index capacity n.2))

/-- The nodes, chain by chain. -/
def nodes (t : InternTable) : List (Nat × Bytes) := (range t.capacity).flatMap t.buckets

/-- A table that is three quarters full gets twice as many chains. -/
def grow (t : InternTable) : InternTable :=
  if t.capacity * 3 / 4 ≤ t.count then
    { t with
      buckets := t.nodes.foldl (link (t.capacity * 2)) fun _ => [], capacity := t.capacity * 2 }
  else t

/-- `intern_string`. -/
def internString (t : InternTable) (str : Bytes) : Nat × InternTable :=
  match (t.buckets (index t.capacity (cstr str))).find? fun n => n.2 == cstr str with
  | some n => (n.1, t)
  | none =>
    (t.count, { t.grow with
      buckets := link t.grow.capacity t.grow.buckets (t.count, cstr str)
      count := t.count + 1 })

/-- A call, with what it returned before. -/
def call (r : List (Bytes × Nat) × InternTable) (str : Bytes) : List (Bytes × Nat) × InternTable :=
  ((str, (r.2.internString str).1) :: r.1, (r.2.internString str).2)

/-! ## §2 The invariant -/

structure Inv (t : InternTable) : Prop where
  capacity : ∃ k, t.capacity = 2 ^ k
  placed : ∀ i, ∀ n ∈ t.buckets i, index t.capacity n.2 = i
  addresses : (t.nodes.map Prod.fst).Perm (range t.count)
  distinct : (t.nodes.map Prod.snd).Nodup

variable {capacity : Nat} {b : Chains} {t : InternTable}

theorem index_lt (h : ∃ k, capacity = 2 ^ k) (s : Bytes) : index capacity s < capacity := by
  obtain ⟨k, rfl⟩ := h
  exact Nat.lt_of_le_of_lt Nat.and_le_right (Nat.sub_one_lt (Nat.two_pow_pos k).ne')

theorem flatMap_update_perm {l : List Nat} {i : Nat} (hl : l.Nodup) (hi : i ∈ l) (n : Nat × Bytes) :
    (l.flatMap (update b i (n :: b i))).Perm (n :: l.flatMap b) := by
  induction l with
  | nil => cases hi
  | cons j l ih =>
    obtain ⟨hj, hl⟩ := nodup_cons.mp hl
    by_cases hij : i = j
    · subst hij
      have hrest : l.flatMap (update b i (n :: b i)) = l.flatMap b :=
        flatMap_congr fun x hx => update_of_ne (ne_of_mem_of_not_mem hx hj) ..
      simp [flatMap_cons, hrest]
    · have htail := ih hl ((mem_cons.mp hi).resolve_left hij)
      rw [flatMap_cons, flatMap_cons, update_of_ne (Ne.symm hij)]
      exact (htail.append_left _).trans perm_middle

theorem nodes_link (hcap : ∃ k, capacity = 2 ^ k) (b : Chains) (n : Nat × Bytes) :
    ((range capacity).flatMap (link capacity b n)).Perm (n :: (range capacity).flatMap b) :=
  flatMap_update_perm nodup_range (mem_range.mpr (index_lt hcap n.2)) n

theorem nodes_foldl (hcap : ∃ k, capacity = 2 ^ k) (l : List (Nat × Bytes)) (b : Chains) :
    ((range capacity).flatMap (l.foldl (link capacity) b)).Perm
      (l ++ (range capacity).flatMap b) := by
  induction l generalizing b with
  | nil => simp
  | cons n l ih => exact (ih _).trans (((nodes_link hcap b n).append_left l).trans perm_middle)

theorem placed_link (hb : ∀ i, ∀ n ∈ b i, index capacity n.2 = i) (m : Nat × Bytes) :
    ∀ i, ∀ n ∈ link capacity b m i, index capacity n.2 = i := by
  intro i n hn
  by_cases hi : i = index capacity m.2
  · subst hi
    rcases mem_cons.mp (by simpa [link] using hn) with rfl | hn
    · rfl
    · exact hb _ n hn
  · exact hb i n (by simpa [link, hi] using hn)

theorem Inv.grow (h : Inv t) : Inv t.grow ∧ t.grow.nodes.Perm t.nodes := by
  unfold InternTable.grow
  split
  · have hcap : ∃ k, t.capacity * 2 = 2 ^ k :=
      h.capacity.imp' (· + 1) fun k hk => by rw [hk, Nat.pow_succ]
    have hnodes := nodes_foldl hcap t.nodes fun _ => []
    rw [flatMap_eq_nil_iff.mpr fun _ _ => rfl, append_nil] at hnodes
    refine ⟨⟨hcap, ?_, (hnodes.map _).trans h.addresses, (hnodes.map _).nodup_iff.mpr h.distinct⟩,
      hnodes⟩
    exact foldlRecOn (motive := fun b : Chains => ∀ i, ∀ n ∈ b i, index (t.capacity * 2) n.2 = i) _
      _ (by simp)
      fun b hb n _ => placed_link hb n
  · exact ⟨h, .refl _⟩

/-- A call leaves the nodes as they are, or adds one; it returns the address of its string. -/
theorem Inv.internString (h : Inv t) (str : Bytes) :
    Inv (t.internString str).2 ∧ t.nodes ⊆ (t.internString str).2.nodes ∧
      ((t.internString str).1, cstr str) ∈ (t.internString str).2.nodes := by
  have hlt := index_lt h.capacity (cstr str)
  unfold InternTable.internString
  split
  · next n hn =>
    have heq : n.2 = cstr str := by simpa using find?_some hn
    refine ⟨h, Subset.refl _, mem_flatMap.mpr ⟨_, mem_range.mpr hlt, ?_⟩⟩
    rw [← heq] at hn ⊢
    exact mem_of_find?_eq_some hn
  · next hnone =>
    have hnew : cstr str ∉ t.nodes.map Prod.snd := by
      rintro hmem
      obtain ⟨n, hn, heq⟩ := mem_map.mp hmem
      obtain ⟨i, -, hi⟩ := mem_flatMap.mp hn
      rw [← heq, h.placed i n hi] at hnone
      simpa using find?_eq_none.mp hnone n hi
    obtain ⟨hgrow, hsame⟩ := h.grow
    have hnodes :=
      (nodes_link hgrow.capacity t.grow.buckets (t.count, cstr str)).trans (hsame.cons _)
    refine ⟨⟨hgrow.capacity, placed_link hgrow.placed _, ?_, ?_⟩, fun n hn => ?_, ?_⟩
    · refine (hnodes.map Prod.fst).trans ?_
      rw [range_succ]
      exact (h.addresses.cons _).trans (perm_append_singleton ..).symm
    · exact (hnodes.map Prod.snd).nodup_iff.mpr (nodup_cons.mpr ⟨hnew, h.distinct⟩)
    · exact hnodes.mem_iff.mpr (mem_cons_of_mem _ hn)
    · exact hnodes.mem_iff.mpr mem_cons_self

theorem Inv.addr_iff (h : Inv t) {n m : Nat × Bytes} (hn : n ∈ t.nodes) (hm : m ∈ t.nodes) :
    n.1 = m.1 ↔ n.2 = m.2 := by
  have haddr : (t.nodes.map Prod.fst).Nodup := h.addresses.nodup_iff.mpr nodup_range
  exact ⟨fun heq => congrArg _ (inj_on_of_nodup_map haddr hn hm heq),
    fun heq => congrArg _ (inj_on_of_nodup_map h.distinct hn hm heq)⟩

/-! ## §3 Calls -/

/-- **Equal strings have one address.** After any sequence of calls: two of them returned the
same address exactly if their strings are equal; what they returned is the address of that
string, and no other string's; and the table is in order. -/
theorem interns (strs : List Bytes) : let r := strs.foldl call ([], {})
    (∀ c ∈ r.1, ∀ d ∈ r.1, c.2 = d.2 ↔ cstr c.1 = cstr d.1) ∧
    (∀ c ∈ r.1, ∀ s, (c.2, s) ∈ r.2.nodes ↔ s = cstr c.1) ∧
    (∃ k, r.2.capacity = 2 ^ k) ∧ (∀ i, ∀ n ∈ r.2.buckets i, index r.2.capacity n.2 = i) ∧
    r.2.count = r.2.nodes.length := by
  intro r
  obtain ⟨h, hcalls⟩ : Inv r.2 ∧ ∀ c ∈ r.1, (c.2, cstr c.1) ∈ r.2.nodes := by
    refine foldlRecOn (motive := fun r : List (Bytes × Nat) × InternTable => Inv r.2 ∧ ∀ c ∈ r.1,
      (c.2, cstr c.1) ∈ r.2.nodes) _ _ ?_ ?_
    · have hnone : ({} : InternTable).nodes = [] := flatMap_eq_nil_iff.mpr fun _ _ => rfl
      exact ⟨⟨⟨10, rfl⟩, by simp, by simp [hnone], by simp [hnone]⟩, by simp⟩
    · rintro r ⟨h, hcalls⟩ str -
      obtain ⟨h', hkeep, hnew⟩ := h.internString str
      refine ⟨h', fun c hc => ?_⟩
      rcases mem_cons.mp hc with rfl | hc
      · exact hnew
      · exact hkeep (hcalls c hc)
  refine ⟨fun c hc d hd => h.addr_iff (hcalls c hc) (hcalls d hd), fun c hc s => ?_, h.capacity,
    h.placed, ?_⟩
  · exact ⟨fun hs => (h.addr_iff hs (hcalls c hc)).mp rfl, fun hs => hs ▸ hcalls c hc⟩
  · simpa using h.addresses.length_eq.symm

end InternTable

end SsoSystem
