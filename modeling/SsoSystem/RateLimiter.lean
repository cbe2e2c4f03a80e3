/-
SsoSystem.RateLimiter — the rate limiter (src/ratelimit.c).

A table of fixed size with open addressing holds a window start and a count
for each key. A key is stored cut to 63 characters and compared in full. Times
are `uint64_t` and their difference wraps: `rate_limiter_check` reads the clock
before it takes the lock, so a check may come with a time before the start of
the window that another one has just opened. The count is a whole number here;
where a result is not about counts below 2^31 by its own terms, the steps of a
run are asked not to overflow it (`Orderly`).

For a key that is not cut, a check sees and changes only the key's own entry
(`check_self`). From there on: the limit of one window (`limit_binds_iff`), of
any interval (`sliding_iff`), and the whole table as a map (`refines_map`).
-/
import Mathlib.Data.List.Nodup
import Mathlib.Data.List.Perm.Subperm
import SsoSystem.Types

namespace SsoSystem

open CMem List

/-! ## §1 The table -/

/-- `rl_entry_t`. A slot with an empty key is free. -/
structure RlEntry where
  key : Bytes := []
  windowStart : UInt64 := 0
  count : Nat := 0
  lastAccess : UInt64 := 0
  deriving DecidableEq, Repr

namespace RateLimiter

/-- `hash_string`; a `char` is signed. -/
def hashString (key : Bytes) : UInt64 :=
  key.foldl (fun hash c => (hash <<< 5) + hash + (c.toUInt64 - if c < 128 then 0 else 256)) 5381

variable (es : List RlEntry) (key : Bytes) (now window : UInt64) (max : Int)

def slot (p : Nat) : RlEntry := es.getD p {}

/-- `rate_limiter_create`: all slots are free. -/
def create (n : Nat) : List RlEntry := replicate n {}

/-- The slots in the order in which a key's search comes to them. -/
def probes : List Nat :=
  (range es.length).map fun i => ((hashString key).toNat % es.length + i) % es.length

/-- The search ends at a free slot and at the key's own. -/
def stops (p : Nat) : Bool := (slot es p).key = [] || (slot es p).key = key

/-- `find_or_evict`: where the search ends, or the first slot whose window is over, or the
one that was used least recently. -/
def findOrEvict : Nat :=
  ((probes es key).find? (stops es key)).getD <|
    ((probes es key).find? fun p => window < now - (slot es p).windowStart).getD
      ((probes es key).foldl (fun best p =>
        if (slot es p).lastAccess < best.2 then (p, (slot es p).lastAccess) else best)
        (0, UInt64.ofNat (2 ^ 64 - 1))).1

/-- A check of a key that has its entry. -/
def hit (e : RlEntry) : Bool × RlEntry :=
  if now - e.windowStart ≤ window then
    (decide ((e.count + 1 : Int) ≤ max), { e with count := e.count + 1, lastAccess := now })
  else (true, { e with windowStart := now, count := 1, lastAccess := now })

/-- The entry a key gets in a new or reused slot. -/
def fresh : RlEntry := { key := strlcpy 64 key, windowStart := now, count := 1, lastAccess := now }

/-- `rate_limiter_check`: whether the request is accepted, and the table. -/
def check : Bool × List RlEntry :=
  let p := findOrEvict es key now window
  let r := if (slot es p).key = key then hit now window max (slot es p) else (true, fresh key now)
  (r.1, es.set p r.2)

/-- `rate_limiter_reset`. -/
def reset : List RlEntry :=
  match (probes es key).find? (stops es key) with
  | some p => if (slot es p).key = key ∧ key ≠ [] then es.set p { key } else es
  | none => es

/-! ## §2 The entry of a key -/

/-- The entry a search for the key comes to. -/
def entryOf : Option RlEntry :=
  ((probes es key).find? (stops es key)).bind fun p =>
    if (slot es p).key = key then some (slot es p) else none

/-- A check, from the key's own entry alone. -/
def next (o : Option RlEntry) : Bool × RlEntry :=
  o.elim (true, fresh key now) (hit now window max)

variable {es key now window max} {p : Nat}

theorem mem_probes : p ∈ probes es key ↔ p < es.length := by
  simp only [probes, mem_map, mem_range]
  constructor
  · rintro ⟨i, hi, rfl⟩
    exact Nat.mod_lt _ (by omega)
  · intro hp
    have hpos : 0 < es.length := by omega
    have hmod := Nat.mod_lt (hashString key).toNat hpos
    refine ⟨(p + es.length - (hashString key).toNat % es.length) % es.length, Nat.mod_lt _ hpos, ?_⟩
    rw [Nat.add_mod_mod, Nat.add_sub_cancel' (by omega), Nat.add_mod_right, Nat.mod_eq_of_lt hp]

theorem findOrEvict_lt (hes : es ≠ []) : findOrEvict es key now window < es.length := by
  unfold findOrEvict
  cases hstop : (probes es key).find? (stops es key) with
  | some p => exact mem_probes.mp (mem_of_find?_eq_some hstop)
  | none =>
    cases hover : (probes es key).find? fun p => window < now - (slot es p).windowStart with
    | some p => exact mem_probes.mp (mem_of_find?_eq_some hover)
    | none =>
      refine foldlRecOn (motive := fun best : Nat × UInt64 => best.1 < es.length) _ _
        (length_pos_iff.mpr hes) ?_
      intro best hbest p hp
      split
      · exact mem_probes.mp hp
      · exact hbest

theorem slot_set (hp : p < es.length) (e : RlEntry) (q : Nat) :
    slot (es.set p e) q = if q = p then e else slot es q := by
  by_cases h : q = p
  · subst h
    simp [slot, hp]
  · simp [slot, getElem?_set_ne (Ne.symm h), h]

@[simp] theorem probes_set (p : Nat) (e : RlEntry) : probes (es.set p e) key = probes es key := by
  simp [probes]

theorem find?_or_eq {l : List Nat} {P : Nat → Bool} (hmem : p ∈ l)
    (h : ∀ q, l.find? P = some q → q = p) : l.find? (fun q => P q || q == p) = some p := by
  induction l with
  | nil => cases hmem
  | cons x l ih =>
    by_cases hx : x = p
    · simp [hx]
    · have hP : P x = false := by
        by_contra hP
        exact hx (h x (by simp [hP]))
      simp only [find?_cons, hP, Bool.false_or, beq_false_of_ne hx]
      exact ih ((mem_cons.mp hmem).resolve_left (Ne.symm hx)) fun q hq => h q (by simp [hP, hq])

/-- A key that is put where its search ends, or anywhere if the search does not end, is
found there. -/
theorem find?_stops_set {e : RlEntry} (hp : p < es.length) (he : e.key = key)
    (h : ∀ q, (probes es key).find? (stops es key) = some q → q = p) :
    (probes (es.set p e) key).find? (stops (es.set p e) key) = some p := by
  have hstops : stops (es.set p e) key = fun q => stops es key q || q == p := by
    funext q
    simp only [stops, slot_set hp]
    by_cases hq : q = p
    · simp [hq, he]
    · simp [hq]
  rw [hstops, probes_set]
  exact find?_or_eq (mem_probes.mpr hp) h

theorem slot_create (n p : Nat) : slot (create n) p = {} := by
  by_cases hp : p < n <;> simp [slot, create, hp]

@[simp] theorem create_ne_nil {n : Nat} : create n ≠ [] ↔ n ≠ 0 := by
  simp [create]

/-- A text that is not cut. -/
def IsKey (key : Bytes) : Prop := (0 : UInt8) ∉ key ∧ key.length < 64

theorem key_hit (e : RlEntry) : (hit now window max e).2.key = e.key := by
  unfold hit
  split <;> rfl

theorem key_next (hkey : IsKey key) {o : Option RlEntry} (ho : ∀ e ∈ o, e.key = key) :
    (next key now window max o).2.key = key := by
  cases o with
  | none => exact strlcpy_eq_self hkey.1 hkey.2
  | some e => exact (key_hit e).trans (ho e rfl)

theorem key_of_entryOf {e : RlEntry} (h : e ∈ entryOf es key) : e.key = key := by
  obtain ⟨p, -, hp⟩ := Option.bind_eq_some_iff.mp h
  obtain ⟨hkey, ⟨⟩⟩ := Option.ite_none_right_eq_some.mp hp
  exact hkey

theorem entryOf_free (n : Nat) (hkey : key ≠ []) : entryOf (create n) key = none := by
  refine Option.eq_none_iff_forall_ne_some.mpr fun e he => hkey ?_
  obtain ⟨p, -, hp⟩ := Option.bind_eq_some_iff.mp he
  rw [slot_create] at hp
  exact (Option.ite_none_right_eq_some.mp hp).1.symm

/-- A check puts the key's next entry into the slot it has chosen. -/
theorem check_eq (hes : es ≠ []) : check es key now window max =
    ((next key now window max (entryOf es key)).1,
      es.set (findOrEvict es key now window) (next key now window max (entryOf es key)).2) := by
  have hlt := @findOrEvict_lt es key now window hes
  have hchosen : entryOf es key = if (slot es (findOrEvict es key now window)).key = key then
      some (slot es (findOrEvict es key now window)) else none := by
    cases hstop : (probes es key).find? (stops es key) with
    | some p => simp [entryOf, findOrEvict, hstop]
    | none =>
      have hp := find?_eq_none.mp hstop _ (mem_probes.mpr hlt)
      simp only [stops, Bool.or_eq_true, decide_eq_true_eq, not_or] at hp
      simp [entryOf, hstop, hp.2]
  simp only [check, hchosen]
  split <;> rfl

/-- What a check does to its own key, whatever else is in the table. -/
theorem check_self (hes : es ≠ []) (hkey : IsKey key) :
    (check es key now window max).1 = (next key now window max (entryOf es key)).1 ∧
      entryOf (check es key now window max).2 key =
        some (next key now window max (entryOf es key)).2 := by
  have hnext := @key_next key now window max hkey (entryOf es key) fun e => key_of_entryOf
  have hlt := @findOrEvict_lt es key now window hes
  rw [check_eq hes]
  refine ⟨rfl, ?_⟩
  generalize next key now window max (entryOf es key) = r at hnext ⊢
  have hfind := find?_stops_set hlt hnext fun q hq => by simp [findOrEvict, hq]
  rw [entryOf, hfind, Option.bind_some, slot_set hlt, if_pos rfl, if_pos hnext]

/-! ## §3 The limit of one key -/

section Limit

variable (key : Bytes) (window : UInt64) (max : Int)

/-- The times at which checks of the key are accepted; each check with the table it meets. -/
def accepted (trace : List (List RlEntry × UInt64)) : List UInt64 :=
  (trace.filter fun c => (check c.1 key c.2 window max).1).map Prod.snd

/-- Checks of the key between which nothing evicts or resets it. -/
def Undisturbed : Option RlEntry → List (List RlEntry × UInt64) → Prop
  | _, [] => True
  | o, (es, now) :: trace => es ≠ [] ∧ entryOf es key = o ∧
      Undisturbed (entryOf (check es key now window max).2 key) trace

/-- A check finds the key's window begun no later than its own time, and the `int` that counts
in it not at its end. -/
def Orderly (e : RlEntry) (now : UInt64) : Prop :=
  e.windowStart ≤ now ∧ (now - e.windowStart ≤ window → e.count + 1 < 2 ^ 31)

/-- Every check of the key is orderly, in the table it meets. -/
def InOrder (trace : List (List RlEntry × UInt64)) : Prop :=
  ∀ c ∈ trace, ∀ e ∈ entryOf c.1 key, Orderly window e c.2

/-- Checks of the key one right after the other. -/
def alone : List RlEntry → List UInt64 → List (List RlEntry × UInt64)
  | _, [] => []
  | es, t :: ts => (es, t) :: alone (check es key t window max).2 ts

/-- The accepted times, from the key's own entry alone. -/
def admits : Option RlEntry → List UInt64 → List UInt64
  | _, [] => []
  | o, t :: ts =>
    let r := next key t window max o
    (if r.1 then [t] else []) ++ admits (some r.2) ts

/-- Orderly checks, from the key's own entry alone. -/
def InOrderFrom : Option RlEntry → List UInt64 → Prop
  | _, [] => True
  | o, t :: ts =>
    (∀ e ∈ o, Orderly window e t) ∧ InOrderFrom (some (next key t window max o).2) ts

end Limit

/-- Which checks are accepted depends on the times and the key's own entry only. -/
theorem accepted_eq (hkey : IsKey key) {o : Option RlEntry}
    {trace : List (List RlEntry × UInt64)} (h : Undisturbed key window max o trace) :
    accepted key window max trace = admits key window max o (trace.map Prod.snd) := by
  induction trace generalizing o with
  | nil => rfl
  | cons c trace ih =>
    obtain ⟨hes, rfl, hrest⟩ := h
    obtain ⟨hanswer, hentry⟩ := @check_self c.1 key c.2 window max hes hkey
    have htail := ih hrest
    rw [hentry] at htail
    rw [map_cons, admits, ← htail, ← hanswer]
    cases hok : (check c.1 key c.2 window max).1 <;> simp [accepted, hok]

/-- And so does whether they are orderly. -/
theorem inOrder_iff (hkey : IsKey key) {o : Option RlEntry}
    {trace : List (List RlEntry × UInt64)} (h : Undisturbed key window max o trace) :
    InOrder key window trace ↔ InOrderFrom key window max o (trace.map Prod.snd) := by
  induction trace generalizing o with
  | nil => simp [InOrder, InOrderFrom]
  | cons c trace ih =>
    obtain ⟨hes, rfl, hrest⟩ := h
    have htail := ih hrest
    rw [(@check_self c.1 key c.2 window max hes hkey).2] at htail
    rw [map_cons, InOrderFrom, ← htail, InOrder, forall_mem_cons]
    rfl

theorem undisturbed_alone (hes : es ≠ []) (ts : List UInt64) :
    Undisturbed key window max (entryOf es key) (alone key window max es ts) := by
  induction ts generalizing es with
  | nil => trivial
  | cons t ts ih =>
    refine ⟨hes, rfl, ih ?_⟩
    simpa [check, ← length_pos_iff] using hes

@[simp] theorem map_snd_alone (ts : List UInt64) :
    (alone key window max es ts).map Prod.snd = ts := by
  induction ts generalizing es with
  | nil => rfl
  | cons t ts ih => simp [alone, ih]

/-- A key that is cut is never found again, so that all its checks are accepted. -/
theorem accepted_long (hlong : 64 ≤ key.length) (hes : es ≠ [])
    (hshort : ∀ p, (slot es p).key.length < 64) (ts : List UInt64) :
    accepted key window max (alone key window max es ts) = ts ∧
      InOrder key window (alone key window max es ts) := by
  induction ts generalizing es with
  | nil => exact ⟨rfl, nofun⟩
  | cons t ts ih =>
    have hne : ∀ p, (slot es p).key ≠ key := by
      rintro p rfl
      exact absurd (hshort p) (Nat.not_lt.mpr hlong)
    have hcheck : check es key t window max =
        (true, es.set (findOrEvict es key t window) (fresh key t)) := by
      simp [check, hne]
    have hnone : entryOf es key = none := by
      unfold entryOf
      cases (probes es key).find? (stops es key) <;> simp [hne]
    obtain ⟨htail, horder⟩ := @ih (check es key t window max).2 (by simpa [check] using hes)
      fun p => by
        rw [hcheck, slot_set (findOrEvict_lt hes)]
        split
        · exact Nat.lt_succ_of_le (length_strlcpy_le 64 key)
        · exact hshort p
    constructor
    · rw [alone, accepted, filter_cons_of_pos (by simp [hcheck]), map_cons]
      exact congrArg _ htail
    · exact forall_mem_cons.mpr ⟨by simp [hnone], horder⟩

theorem count_next (hmax : 1 ≤ max) (o : Option RlEntry) :
    0 < (next key now window max o).2.count ∧
    ((next key now window max o).1 = true ↔
      ((next key now window max o).2.count : Int) ≤ max) := by
  cases o with
  | none => simp [next, fresh, hmax]
  | some e =>
    simp only [next, Option.elim_some, hit]
    split
    · simp
    · simp [hmax]

/-- Where the difference of the times does not wrap, it is at most the window exactly up to the
window's end. -/
theorem sub_le_iff {start : UInt64} (h : start ≤ now) :
    now - start ≤ window ↔ now.toNat ≤ start.toNat + window.toNat := by
  have hle := UInt64.le_iff_toNat_le.mp h
  rw [UInt64.le_iff_toNat_le, UInt64.toNat_sub_of_le _ _ h]
  omega

/-- Up to the end of the window no more is accepted than the count leaves of the maximum. -/
theorem length_admits_le {e : RlEntry} {ts : List UInt64}
    (horder : InOrderFrom key window max (some e) ts)
    (hts : ∀ t ∈ ts, t.toNat ≤ e.windowStart.toNat + window.toNat) :
    ((admits key window max (some e) ts).length : Int) + e.count ≤ Max.max max e.count := by
  induction ts generalizing e with
  | nil => simp [admits]
  | cons t ts ih =>
    obtain ⟨ht, hts⟩ := forall_mem_cons.mp hts
    obtain ⟨hfirst, hrest⟩ := horder
    have hin : t - e.windowStart ≤ window := (sub_le_iff (hfirst e rfl).1).mpr ht
    simp only [next, Option.elim_some, hit, hin, if_true] at hrest
    have htail := ih hrest hts
    simp only [admits, next, Option.elim_some, hit, hin, if_true, length_append]
    split
    · next hok =>
      simp only [decide_eq_true_eq] at hok
      simp only [length_singleton]
      push_cast at htail ⊢
      omega
    · simp only [length_nil]
      push_cast at htail ⊢
      omega

/-- The checks fall into one window of the key: no time is behind the end of the window that is
running at the first of them, or that begins with it. -/
def InOneWindow (key : Bytes) (window : UInt64) (max : Int) (o : Option RlEntry) :
    List UInt64 → Prop
  | [] => True
  | t :: ts => ∀ u ∈ ts, u.toNat ≤ (next key t window max o).2.windowStart.toNat + window.toNat

/-- The limiter has a free slot at the first check. -/
def HasRoom (trace : List (List RlEntry × UInt64)) : Prop :=
  ∀ c ∈ trace.head?, ∃ e ∈ c.1, e.key = []

/-- **The limit of a key.** In the runs whose checks are orderly, more checks of a key in one
window than the maximum are not all accepted, exactly if the key is not cut (and the maximum is
at least one). -/
theorem limit_binds_iff (key : Bytes) (hne : key ≠ []) (hkey : (0 : UInt8) ∉ key)
    (window : UInt64) (max : Int) :
    (∀ o trace, Undisturbed key window max o trace → HasRoom trace → InOrder key window trace →
      InOneWindow key window max o (trace.map Prod.snd) → max < trace.length →
      accepted key window max trace ≠ trace.map Prod.snd) ↔ key.length < 64 ∧ 1 ≤ max := by
  constructor
  · intro h
    have hfree : entryOf (create 1) key = none := entryOf_free 1 hne
    have halone : ∀ ts, InOrder key window (alone key window max (create 1) ts) →
        InOneWindow key window max none ts → max < ts.length →
        accepted key window max (alone key window max (create 1) ts) ≠ ts := by
      intro ts horder hwindow hmore
      have := h _ _ (@undisturbed_alone (create 1) key window max (by simp) ts)
        (by cases ts <;> simp [HasRoom, alone, create]) horder
      rw [hfree, map_snd_alone, ← @length_map _ _ _ Prod.snd, map_snd_alone] at this
      exact this hwindow hmore
    constructor
    · by_contra hlong
      obtain ⟨hall, horder⟩ := @accepted_long (create 1) key window max (Nat.le_of_not_lt hlong)
        (by simp) (by simp [slot_create]) (replicate (max.toNat + 1) 0)
      refine halone _ horder ?_ (by rw [length_replicate]; omega) hall
      simp [replicate_succ, InOneWindow, next, fresh]
    · by_contra hmax
      refine halone [0] (by simp [InOrder, alone, hfree]) nofun (by simp; omega) ?_
      simp [accepted, alone, check, slot_create, Ne.symm hne]
  · rintro ⟨hlen, hmax⟩ o trace htrace - horder hwindow hmore heq
    rw [accepted_eq ⟨hkey, hlen⟩ htrace] at heq
    rw [inOrder_iff ⟨hkey, hlen⟩ htrace] at horder
    rw [← @length_map _ _ _ Prod.snd] at hmore
    cases hts : trace.map Prod.snd with
    | nil => exact absurd hmore (by simp [hts]; omega)
    | cons t ts =>
      rw [hts] at heq hwindow hmore horder
      obtain ⟨hpos, hiff⟩ := @count_next key t window max hmax o
      have hle := length_admits_le horder.2 hwindow
      have hlen := congrArg length heq
      simp only [admits, length_append, length_cons] at hlen hmore
      push_cast at hmore
      split at hlen
      · next hok =>
        have := hiff.mp hok
        rw [length_singleton] at hlen
        omega
      · next hno =>
        have := mt hiff.mpr hno
        rw [length_nil] at hlen
        omega

/-- A phone number of 54 digits gives a key that is cut; and a check whose time was read before
the window of another one opens a new window. -/
theorem longPhone_escapes : let long := lit "sms_login:" ++ replicate 54 55
    let trace := alone long 60000 3 (create 8) [70000, 70001, 70002, 70003]
    let short := lit "sms_login:555"
    let late := alone short 60000 3 (create 8) [70001, 70001, 70001, 70000]
    HasRoom trace ∧ Undisturbed long 60000 3 (entryOf (create 8) long) trace ∧
      accepted long 60000 3 trace = [70000, 70001, 70002, 70003] ∧
    HasRoom late ∧ Undisturbed short 60000 3 (entryOf (create 8) short) late ∧
      accepted short 60000 3 late = [70001, 70001, 70001, 70000] :=
  ⟨by simp [HasRoom, alone, create], undisturbed_alone (by simp) _, by decide +kernel,
    by simp [HasRoom, alone, create], undisturbed_alone (by simp) _, by decide +kernel⟩

/-- Four checks of a short key at three a minute. -/
theorem shortPhone_bound :
    let trace := alone (lit "sms_login:555") 60000 3 (create 8) [70000, 70001, 70001, 70003]
    accepted (lit "sms_login:555") 60000 3 trace ≠ trace.map Prod.snd := by
  have hkey : IsKey (lit "sms_login:555") := by
    unfold IsKey
    decide
  have hund := @undisturbed_alone (create 8) (lit "sms_login:555") 60000 3 (by simp)
    [70000, 70001, 70001, 70003]
  refine (limit_binds_iff (lit "sms_login:555") (by decide) (by decide) 60000 3).mpr (by decide)
    _ _ hund (by simp [HasRoom, alone, create]) ?_ ?_ (by decide)
  · rw [inOrder_iff hkey hund, entryOf_free 8 (by decide), map_snd_alone]
    simp [InOrderFrom, Orderly, next, fresh, hit]
  · rw [entryOf_free 8 (by decide), map_snd_alone]
    simp [InOneWindow, next, fresh]

/-! ## §4 Any interval -/

/-- How many of the times lie between `a` and the end of a window that begins there. -/
def within (window : UInt64) (a : Nat) (ts : List UInt64) : Nat :=
  ts.countP fun t => a ≤ t.toNat ∧ t.toNat ≤ a + window.toNat

/-- The limits no burst can get around: one check, windows that are over at once, and a window
that is never over. -/
def Burstless (window : UInt64) (max : Int) : Prop :=
  1 ≤ max ∧ (max = 1 ∨ window = 0 ∨ window.toNat = 2 ^ 64 - 1)

/-- What is still accepted in an interval: nothing behind its end, what the count leaves in
the running window, and never more than the maximum. -/
theorem within_admits_le (hcond : Burstless window max) (a : Nat) {e : RlEntry}
    (hcount : 1 ≤ e.count) {ts : List UInt64}
    (horder : InOrderFrom key window max (some e) ts) :
    let n := within window a (admits key window max (some e) ts)
    (n : Int) ≤ max ∧ (a + window.toNat < e.windowStart.toNat → n = 0) ∧
      (a ≤ e.windowStart.toNat ∧ e.windowStart.toNat ≤ a + window.toNat ∨
        window.toNat = 2 ^ 64 - 1 → n = 0 ∨ (n + e.count : Int) ≤ max) := by
  obtain ⟨hone, hkind⟩ := hcond
  rw [← UInt64.toNat_inj, UInt64.toNat_zero] at hkind
  induction ts generalizing e with
  | nil => exact ⟨by simp [admits, within]; omega, fun _ => rfl, fun _ => .inl rfl⟩
  | cons t ts ih =>
    obtain ⟨hfirst, hrest⟩ := horder
    have hstart := (hfirst e rfl).1
    have hle := UInt64.le_iff_toNat_le.mp hstart
    have hlt := UInt64.toNat_lt t
    simp only [admits, next, Option.elim_some, hit, within, countP_append] at hrest ⊢
    split
    · next hin =>
      rw [if_pos hin] at hrest
      have htail := ih (by simp) hrest
      have hend := (sub_le_iff hstart).mp hin
      simp only [within] at htail
      push_cast at htail
      split
      · next hok =>
        simp only [decide_eq_true_eq] at hok
        simp only [countP_singleton, decide_eq_true_eq]
        split <;> push_cast <;> omega
      · simp only [countP_nil]
        omega
    · next hout =>
      rw [if_neg hout] at hrest
      have htail := ih (Nat.le_refl 1) hrest
      have hend := mt (sub_le_iff hstart).mpr hout
      simp only [within] at htail
      simp only [if_true, countP_singleton, decide_eq_true_eq]
      split <;> push_cast at htail ⊢ <;> omega

/-- As many checks at one time in the window as the count leaves of the maximum are accepted. -/
theorem admits_replicate {k : Nat} {t : UInt64} (rest : List UInt64) {e : RlEntry}
    (hstart : e.windowStart ≤ t) (ht : t - e.windowStart ≤ window) (hk : (e.count + k : Int) ≤ max)
    (hmax : max < 2 ^ 31) : ∃ e', e'.windowStart = e.windowStart ∧
      admits key window max (some e) (replicate k t ++ rest) =
        replicate k t ++ admits key window max (some e') rest ∧
      (InOrderFrom key window max (some e) (replicate k t ++ rest) ↔
        InOrderFrom key window max (some e') rest) := by
  induction k generalizing e with
  | zero => exact ⟨e, rfl, rfl, .rfl⟩
  | succ k ih =>
    push_cast at hk
    obtain ⟨e', hstart', heq, horder⟩ := @ih { e with count := e.count + 1, lastAccess := t }
      hstart ht (by push_cast; omega)
    have hok : (e.count + 1 : Int) ≤ max := by omega
    have hfits : e.count + 1 < 2 ^ 31 := by omega
    refine ⟨e', hstart', ?_, ?_⟩
    · simp [replicate_succ, admits, next, hit, ht, hok, heq]
    · rw [← horder, replicate_succ, cons_append, InOrderFrom]
      simp only [next, Option.elim_some, hit, ht, if_true]
      exact and_iff_right fun _ h => Option.some.inj h ▸ ⟨hstart, fun _ => hfits⟩

/-- **Any interval.** In the runs whose checks are orderly, no interval as long as the window has
more accepted checks than the maximum, exactly if the key is not cut, and the maximum is one or
the window is empty or never over. -/
theorem sliding_iff (key : Bytes) (hkey : key ≠ []) (hnul : (0 : UInt8) ∉ key) (window : UInt64)
    (max : Int) (hint : max < 2 ^ 31) :
    (∀ trace, Undisturbed key window max none trace → InOrder key window trace →
      ∀ a, (within window a (accepted key window max trace) : Int) ≤ max) ↔
    key.length < 64 ∧ Burstless window max := by
  constructor
  · intro h
    have hfree : ∀ ts, Undisturbed key window max none (alone key window max (create 1) ts) :=
      fun ts => entryOf_free 1 hkey ▸ undisturbed_alone (by simp) ts
    have hlen : key.length < 64 := by
      by_contra hlong
      obtain ⟨hacc, horder⟩ := @accepted_long (create 1) key window max (Nat.le_of_not_lt hlong)
        (by simp) (by simp [slot_create]) (replicate (max.toNat + 1) 0)
      have := h _ (hfree (replicate (max.toNat + 1) 0)) horder 0
      have hall : within window 0 (replicate (max.toNat + 1) 0) = max.toNat + 1 := by
        simp [within, countP_replicate]
      rw [hacc, hall] at this
      omega
    have hrun : ∀ ts : List UInt64, InOrderFrom key window max none ts → ∀ a,
        (within window a (admits key window max none ts) : Int) ≤ max := by
      intro ts hts a
      have := h _ (hfree ts) ((inOrder_iff ⟨hnul, hlen⟩ (hfree ts)).mpr (by simpa using hts)) a
      rwa [accepted_eq ⟨hnul, hlen⟩ (hfree ts), map_snd_alone] at this
    have hone : 1 ≤ max := by
      simpa [admits, next, within] using hrun [0] (by simp [InOrderFrom]) 0
    refine ⟨hlen, hone, ?_⟩
    by_contra hcond
    have hmax : 2 ≤ max := by omega
    have hpos : 1 ≤ window.toNat := by
      have hne : window ≠ 0 := fun h0 => hcond (.inr (.inl h0))
      exact Nat.pos_of_ne_zero fun h0 => hne (UInt64.toNat_inj.mp h0)
    have hlast : (window + 1).toNat = window.toNat + 1 := by
      have := UInt64.toNat_lt window
      rw [UInt64.toNat_add, UInt64.toNat_one, Nat.mod_eq_of_lt (by omega)]
    have hout : ¬ window + 1 ≤ window := by
      rw [UInt64.le_iff_toNat_le, hlast]
      omega
    -- the rest of the maximum at the end of a window, and two checks right behind it
    obtain ⟨e, hstart, heq, horder⟩ := @admits_replicate key window max (max.toNat - 1) window
      [window + 1, window + 1] (fresh key 0) (by simp [fresh]) (by simp [fresh])
      (by simp only [fresh]; omega) hint
    simp only [fresh] at hstart heq horder
    have hburst := hrun (0 :: (replicate (max.toNat - 1) window ++ [window + 1, window + 1]))
      ⟨nofun, by
        simp only [next, fresh, Option.elim_none]
        rw [horder]
        simp [InOrderFrom, Orderly, hstart, next, hit, hout]⟩ window.toNat
    simp [admits, next, fresh, heq, hit, hstart, hmax, within, countP_append, countP_replicate,
      hout, hlast, hpos, Nat.ne_of_gt hpos] at hburst
    omega
  · rintro ⟨hlen, hcond⟩ trace htrace horder a
    rw [accepted_eq ⟨hnul, hlen⟩ htrace]
    rw [inOrder_iff ⟨hnul, hlen⟩ htrace] at horder
    cases hts : trace.map Prod.snd with
    | nil =>
      simp [admits, within]
      exact Int.le_trans (by decide) hcond.1
    | cons t ts =>
      rw [hts] at horder
      have htail := within_admits_le hcond a (Nat.le_refl 1) horder.2
      have hlt := UInt64.toNat_lt t
      have hone := hcond.1
      simp only [admits, next, Option.elim_none, within, if_true, countP_append, countP_singleton,
        decide_eq_true_eq] at htail ⊢
      simp only [fresh] at htail ⊢
      split <;> push_cast <;> omega

/-- One check a minute. -/
theorem oneRequest_bound :
    let trace := alone (lit "10.0.0.1") 60000 1 (create 1) [70000, 100000, 130000, 130001]
    (within 60000 70001 (accepted (lit "10.0.0.1") 60000 1 trace) : Int) ≤ 1 := by
  have hkey : IsKey (lit "10.0.0.1") := by
    unfold IsKey
    decide
  have hund : Undisturbed (lit "10.0.0.1") 60000 1 none
      (alone (lit "10.0.0.1") 60000 1 (create 1) [70000, 100000, 130000, 130001]) :=
    entryOf_free 1 (show lit "10.0.0.1" ≠ [] by decide) ▸ undisturbed_alone (by simp) _
  refine (sliding_iff (lit "10.0.0.1") (by decide) (by decide) 60000 1 (by decide)).mpr
    ⟨by decide, Int.le_refl 1, .inl rfl⟩ _ hund ?_ 70001
  rw [inOrder_iff hkey hund, map_snd_alone]
  simp [InOrderFrom, Orderly, next, fresh, hit]

/-- Five logins a minute: four at the end of a window and two at the beginning of the next. And
one a minute: two, if the second has read the clock before the first. -/
theorem boundary_burst : let key := lit "10.0.0.1"
    let trace := alone key 60000 5 (create 1)
      [70000, 130000, 130000, 130000, 130000, 130001, 130001]
    let late := alone key 60000 1 (create 1) [70001, 70000]
    Undisturbed key 60000 5 none trace ∧ within 60000 130000 (accepted key 60000 5 trace) = 6 ∧
    Undisturbed key 60000 1 none late ∧ within 60000 70000 (accepted key 60000 1 late) = 2 := by
  have hfree := entryOf_free 1 (show lit "10.0.0.1" ≠ [] by decide)
  refine ⟨?_, by decide +kernel, ?_, by decide +kernel⟩
  · rw [← hfree]
    exact undisturbed_alone (by simp) _
  · rw [← hfree]
    exact undisturbed_alone (by simp) _

/-! ## §5 All keys -/

inductive RlCall where
  | check (key : Bytes) (now : UInt64)
  | reset (key : Bytes)

/-- The key a call is about. -/
def RlCall.about : RlCall → Bytes
  | .check k _ | .reset k => k

/-- The window and the maximum of each key. -/
structure Limits where
  window : Bytes → UInt64
  max : Bytes → Int
  pos : ∀ k, 1 ≤ max k

/-- The answer of a check, and the table after a call. -/
def call (lim : Limits) (es : List RlEntry) : RlCall → Option Bool × List RlEntry
  | .check k now => ((check es k now (lim.window k) (lim.max k)).map some id)
  | .reset k => (none, reset es k)

/-- The start of the window a request falls into, and how many it has then had. -/
def tally (now window : UInt64) (o : Option (UInt64 × Nat)) : UInt64 × Nat :=
  (o.filter fun w => now - w.1 ≤ window).elim (now, 1) fun w => (w.1, w.2 + 1)

/-- The calls on a map from keys to window start and count. -/
def mapCall (lim : Limits) (σ : Bytes → Option (UInt64 × Nat)) :
    RlCall → Option Bool × (Bytes → Option (UInt64 × Nat))
  | .check k now =>
    let w := tally now (lim.window k) (σ k)
    (some (w.2 ≤ lim.max k), Function.update σ k (some w))
  | .reset k => (none, Function.update σ k none)

/-- The answers of a sequence of calls. -/
def answers {σ : Type} (call : σ → RlCall → Option Bool × σ) : σ → List RlCall → List (Option Bool)
  | _, [] => []
  | s, c :: cs => (call s c).1 :: answers call (call s c).2 cs

/-- Every key is found where it is. -/
def Inv (es : List RlEntry) : Prop := ∀ p, (slot es p).key ≠ [] →
  (probes es (slot es p).key).find? (stops es (slot es p).key) = some p

theorem Inv.unique (h : Inv es) {q : Nat} (hp : (slot es p).key ≠ [])
    (heq : (slot es p).key = (slot es q).key) : p = q := by
  have hq := h q (heq ▸ hp)
  rw [← heq, h p hp] at hq
  exact Option.some.inj hq

theorem find?_of_imp {l : List Nat} {P P' : Nat → Bool} {q : Nat} (h : l.find? P = some q)
    (himp : ∀ x, P' x = true → P x = true) (hq : P' q = true) : l.find? P' = some q := by
  obtain ⟨-, as, bs, rfl, has⟩ := find?_eq_some_iff_append.mp h
  refine find?_eq_some_iff_append.mpr ⟨hq, as, bs, rfl, fun a ha => ?_⟩
  cases hP' : P' a with
  | false => rfl
  | true => simpa [himp a hP'] using has a ha

/-- The key is put where its search ends, or in the place of another. -/
theorem Inv.set (h : Inv es) {e : RlEntry} (hp : p < es.length) (he : e.key = key)
    (hkey : key ≠ []) (hchosen : ∀ q, (probes es key).find? (stops es key) = some q → q = p) :
    Inv (es.set p e) := by
  intro q hq
  rw [slot_set hp] at hq ⊢
  by_cases hqp : q = p
  · subst hqp
    rw [if_pos rfl, he]
    exact find?_stops_set hp he hchosen
  · rw [if_neg hqp] at hq ⊢
    have hold := h q hq
    have hne : key ≠ (slot es q).key := fun heq => hqp (hchosen q (heq ▸ hold))
    rw [probes_set]
    refine find?_of_imp hold (fun x hx => ?_) (by simp [stops, slot_set hp, hqp])
    by_cases hxp : x = p
    · simp [stops, slot_set hp, hxp, he, hkey, hne] at hx
    · simpa [stops, slot_set hp, hxp] using hx

theorem Inv.entryOf_iff (h : Inv es) (hkey : key ≠ []) {e : RlEntry} :
    entryOf es key = some e ↔ ∃ p, slot es p = e ∧ e.key = key := by
  constructor
  · intro he
    obtain ⟨p, -, hp⟩ := Option.bind_eq_some_iff.mp he
    obtain ⟨hk, ⟨⟩⟩ := Option.ite_none_right_eq_some.mp hp
    exact ⟨p, rfl, hk⟩
  · rintro ⟨p, rfl, rfl⟩
    simp [entryOf, h p hkey]

/-- Another key's entry stays if it is not the one that is replaced. -/
theorem Inv.entryOf_set (h : Inv es) {e : RlEntry} (h' : Inv (es.set p e)) (hp : p < es.length)
    {other : Bytes} (hother : other ≠ []) (hold : (slot es p).key ≠ other) (hnew : e.key ≠ other) :
    entryOf (es.set p e) other = entryOf es other := by
  refine Option.ext fun x => ?_
  rw [h'.entryOf_iff hother, h.entryOf_iff hother]
  refine exists_congr fun q => and_congr_left fun hx => ?_
  rw [slot_set hp]
  split
  · next hq =>
    subst hq
    exact iff_of_false (fun heq => hnew (heq ▸ hx)) fun heq => hold (heq ▸ hx)
  · rfl

variable {lim : Limits} {c : RlCall}

/-- A call writes an entry of its key where the search for it ends, if it ends. -/
theorem call_cases (hes : es ≠ []) (hc : IsKey c.about) : (call lim es c).2 = es ∨
    ∃ p e, p < es.length ∧ e.key = c.about ∧ (call lim es c).2 = es.set p e ∧
      ∀ q, (probes es c.about).find? (stops es c.about) = some q → q = p := by
  cases c with
  | check k now =>
    refine .inr ⟨_, _, findOrEvict_lt hes, key_next hc fun e => key_of_entryOf,
      congrArg Prod.snd (check_eq hes), fun q hq => ?_⟩
    change (probes es k).find? (stops es k) = some q at hq
    simp [findOrEvict, hq]
  | reset k =>
    simp only [call, reset]
    split
    · next p hp =>
      split
      · exact .inr ⟨p, { key := k }, mem_probes.mp (mem_of_find?_eq_some hp), rfl, rfl,
          fun q hq => Option.some.inj (hq.symm.trans hp)⟩
      · exact .inl rfl
    · exact .inl rfl

theorem Inv.of_call (h : Inv es) (hes : es ≠ []) (hc : c.about ≠ [] ∧ IsKey c.about) :
    Inv (call lim es c).2 ∧ (call lim es c).2.length = es.length := by
  rcases @call_cases _ lim _ hes hc.2 with heq | ⟨p, e, hp, he, heq, hchosen⟩
  · rw [heq]
    exact ⟨h, rfl⟩
  · rw [heq]
    exact ⟨h.set hp he hc.1 hchosen, length_set⟩

/-- With no more keys than slots, every search ends. -/
theorem Inv.exists_stop (h : Inv es) {keys : List Bytes} (hroom : keys.length ≤ es.length)
    (hkeys : ∀ p, (slot es p).key = [] ∨ (slot es p).key ∈ keys) (hkey : key ∈ keys) :
    ∃ p, (probes es key).find? (stops es key) = some p := by
  refine Option.ne_none_iff_exists'.mp fun hnone => ?_
  have hfull : ∀ p < es.length, (slot es p).key ≠ [] ∧ (slot es p).key ≠ key := by
    intro p hp
    simpa [stops] using find?_eq_none.mp hnone p (mem_probes.mpr hp)
  have hnodup : (key :: (range es.length).map fun p => (slot es p).key).Nodup := by
    refine nodup_cons.mpr ⟨fun hmem => ?_, Nodup.map_on (fun p hp q _ => h.unique ?_) nodup_range⟩
    · obtain ⟨p, hp, heq⟩ := mem_map.mp hmem
      exact (hfull p (mem_range.mp hp)).2 heq
    · exact (hfull p (mem_range.mp hp)).1
  have hsub : key :: (range es.length).map (fun p => (slot es p).key) ⊆ keys := by
    refine cons_subset.mpr ⟨hkey, fun k hk => ?_⟩
    obtain ⟨p, hp, rfl⟩ := mem_map.mp hk
    exact (hkeys p).resolve_left (hfull p (mem_range.mp hp)).1
  have hlen := (Nodup.subperm hnodup hsub).length_le
  simp at hlen
  omega

/-- What the map knows of an entry. -/
def view (e : RlEntry) : UInt64 × Nat := (e.windowStart, e.count)

theorem next_view (hmax : 1 ≤ max) (o : Option RlEntry) : let r := next key now window max o
    view r.2 = tally now window (o.map view) ∧ r.1 = decide (((view r.2).2 : Int) ≤ max) := by
  cases o with
  | none => simp [next, fresh, tally, view, hmax]
  | some e =>
    by_cases h : now - e.windowStart ≤ window
    · simp [next, hit, tally, view, h, Option.filter]
    · simp [next, hit, tally, view, h, Option.filter, hmax]

/-- The table and the map: both come to the same window at the next check of a key. A key
that was reset keeps its slot. -/
structure Refines (lim : Limits) (keys : List Bytes) (es : List RlEntry)
    (σ : Bytes → Option (UInt64 × Nat)) : Prop where
  inv : Inv es
  room : keys.length ≤ es.length ∧ es ≠ []
  keys : ∀ p, (slot es p).key = [] ∨ (slot es p).key ∈ keys
  entries : ∀ k now, k ≠ [] → lim.window k < now →
    tally now (lim.window k) ((entryOf es k).map view) = tally now (lim.window k) (σ k)

theorem reset_self (hp : (probes es key).find? (stops es key) = some p) (hkey : key ≠ []) :
    entryOf (reset es key) key = none ∨ entryOf (reset es key) key = some { key := key } := by
  by_cases hslot : (slot es p).key = key
  · have hlt := mem_probes.mp (mem_of_find?_eq_some hp)
    simp only [reset, hp, if_pos (And.intro hslot hkey)]
    rw [entryOf, find?_stops_set hlt rfl fun q hq => Option.some.inj (hq.symm.trans hp)]
    simp [slot_set hlt]
  · simp [reset, entryOf, hp, hslot]

theorem Refines.step {keys : List Bytes} {σ : Bytes → Option (UInt64 × Nat)}
    (h : Refines lim keys es σ)
    (hc : c.about ∈ keys ∧ c.about ≠ [] ∧ IsKey c.about)
    (htime : ∀ k now, c = .check k now → lim.window k < now) :
    (call lim es c).1 = (mapCall lim σ c).1 ∧ Refines lim keys (call lim es c).2
    (mapCall lim σ c).2 := by
  obtain ⟨hinv, hlen⟩ := @Inv.of_call _ lim _ h.inv h.room.2 hc.2
  obtain ⟨stop, hstop⟩ := h.inv.exists_stop h.room.1 h.keys hc.1
  have hroom : keys.length ≤ (call lim es c).2.length ∧ (call lim es c).2 ≠ [] := by
    rw [← length_pos_iff, hlen, length_pos_iff]
    exact h.room
  have hothers : ∀ k, k ≠ [] → k ≠ c.about →
      entryOf (call lim es c).2 k = entryOf es k ∧ (mapCall lim σ c).2 k = σ k := by
    intro k hk hne
    refine ⟨?_, by cases c <;> exact Function.update_of_ne hne ..⟩
    rcases @call_cases _ lim _ h.room.2 hc.2.2 with heq | ⟨p, e, hp, he, heq, hchosen⟩
    · rw [heq]
    · rw [heq] at hinv ⊢
      have hslot := find?_some hstop
      rw [hchosen stop hstop] at hslot
      refine h.inv.entryOf_set hinv hp hk (fun hold => ?_) (he ▸ hne.symm)
      simp [stops, hold, hk, hne] at hslot
  have hkeys : ∀ p, (slot (call lim es c).2 p).key = [] ∨ (slot (call lim es c).2 p).key ∈
    keys := by
    intro q
    rcases @call_cases _ lim _ h.room.2 hc.2.2 with heq | ⟨p, e, hp, he, heq, -⟩
    · rw [heq]
      exact h.keys q
    · rw [heq, slot_set hp]
      split
      · exact .inr (he ▸ hc.1)
      · exact h.keys q
  suffices hself : (call lim es c).1 = (mapCall lim σ c).1 ∧ ∀ t, lim.window c.about < t →
      tally t (lim.window c.about) ((entryOf (call lim es c).2 c.about).map view) =
        tally t (lim.window c.about) ((mapCall lim σ c).2 c.about) by
    refine ⟨hself.1, hinv, hroom, hkeys, fun k t hk ht => ?_⟩
    by_cases heq : k = c.about
    · rw [heq] at ht ⊢
      exact hself.2 t ht
    · rw [(hothers k hk heq).1, (hothers k hk heq).2, h.entries k t hk ht]
  cases c with
  | check k now =>
    obtain ⟨hfst, hsnd⟩ := @check_self es k now (lim.window k) (lim.max k) h.room.2 hc.2.2
    obtain ⟨hview, hok⟩ := @next_view k now _ _ (lim.pos k) (entryOf es k)
    rw [h.entries k now hc.2.1 (htime k now rfl)] at hview
    simp [call, mapCall, RlCall.about, hfst, hok, hsnd, hview]
  | reset k =>
    refine ⟨rfl, fun t ht => ?_⟩
    simp only [call, mapCall, RlCall.about, Function.update_self] at ht ⊢
    rcases reset_self hstop hc.2.1 with hfree | hfree
    · simp only [RlCall.about] at hfree
      simp [hfree]
    · simp only [RlCall.about] at hfree
      simp [hfree, tally, view, Option.filter, UInt64.not_le.mpr ht]

theorem Refines.answers_eq {keys : List Bytes} {σ : Bytes → Option (UInt64 × Nat)}
    (h : Refines lim keys es σ)
    {calls : List RlCall} (hcalls : ∀ c ∈ calls, c.about ∈ keys ∧ c.about ≠ [] ∧ IsKey c.about)
    (htimes : ∀ k now, .check k now ∈ calls → lim.window k < now) :
    answers (call lim) es calls = answers (mapCall lim) σ calls := by
  induction calls generalizing es σ with
  | nil => rfl
  | cons c cs ih =>
    obtain ⟨hanswer, hnext⟩ := h.step (hcalls c mem_cons_self) fun k now heq =>
      htimes k now (heq ▸ mem_cons_self)
    rw [answers, answers, hanswer, ih hnext (fun c hc => hcalls c (mem_cons_of_mem _ hc))
      fun k now hk => htimes k now (mem_cons_of_mem _ hk)]

/-- **The table is a map.** With no more keys than slots its answers are those of a map from
keys to window start and count; with any number of keys a key has one slot. -/
theorem refines_map (lim : Limits) {n : Nat} (hn : 0 < n) :
    (∀ calls : List RlCall, (∀ c ∈ calls, c.about ≠ [] ∧ IsKey c.about) → ∀ p q : Nat,
      let es := calls.foldl (fun es c => (call lim es c).2) (create n)
      (slot es p).key ≠ [] → (slot es p).key = (slot es q).key → p = q) ∧
    ∀ (keys : List Bytes) (calls : List RlCall), keys.length ≤ n →
      (∀ c ∈ calls, c.about ∈ keys ∧ c.about ≠ [] ∧ IsKey c.about) →
      (∀ k now, .check k now ∈ calls → lim.window k < now) →
      answers (call lim) (create n) calls = answers (mapCall lim) (fun _ => none) calls := by
  have hinv : Inv (create n) := fun p hp => absurd (congrArg RlEntry.key (slot_create n p)) hp
  have hne : create n ≠ [] := create_ne_nil.mpr (Nat.ne_of_gt hn)
  constructor
  · intro calls hcalls p q es
    suffices h : Inv es ∧ es ≠ [] from h.1.unique
    refine foldlRecOn (motive := fun es => Inv es ∧ es ≠ []) calls _ ⟨hinv, hne⟩ fun es h c hc => ?_
    obtain ⟨hinv', hlen⟩ := h.1.of_call h.2 (hcalls c hc)
    exact ⟨hinv', length_pos_iff.mp (hlen ▸ length_pos_iff.mpr h.2)⟩
  · intro keys calls hroom hcalls htimes
    refine Refines.answers_eq ⟨hinv, ?_, fun p => .inl (by rw [slot_create]), fun k now hk _ => ?_⟩
      hcalls htimes
    · exact ⟨by simpa [create] using hroom, hne⟩
    · rw [entryOf_free n hk, Option.map_none]

/-- Two addresses in two slots; the second is reset in its window. -/
theorem twoAddresses_map : let lim : Limits := ⟨fun _ => 60000, fun _ => 1, fun _ => Int.le_refl 1⟩
    let calls := [.check (lit "10.0.0.1") 70000, .check (lit "10.0.0.2") 70000,
      .reset (lit "10.0.0.2"), .check (lit "10.0.0.2") 70001, .check (lit "10.0.0.1") 70002]
    answers (call lim) (create 2) calls = answers (mapCall lim) (fun _ => none) calls :=
  (refines_map ⟨fun _ => 60000, fun _ => 1, fun _ => Int.le_refl 1⟩ (by decide)).2
    [lit "10.0.0.1", lit "10.0.0.2"] _ (by decide) (by simp [RlCall.about, IsKey]; decide)
    (by
      intro k now h
      simp at h
      change (60000 : UInt64) < now
      rcases h with ⟨-, rfl⟩ | ⟨-, rfl⟩ | ⟨-, rfl⟩ | ⟨-, rfl⟩ <;> decide)

end RateLimiter

end SsoSystem
