/-
SsoSystem.Tenancy.ConnectionTheorems — statements run on the right database
as long as no request meets a thread-local connection of another tenant.

What the pools hold is stated once for any property of connections
(`takeIdle_forall`, `poolAcquire_forall`). A request is then two parts:
`thread_init` leaves the thread with a connection for the request's backend,
and the statements use that or the default connection.
-/
import SsoSystem.Tenancy.Connections

namespace SsoSystem

open CMem List Option Function

/-! ## §1 Pools -/

section Pools

variable {P : Conn → Prop} {l : Lifecycle} {fresh : Conn} {pool : List PoolSlot}

theorem takeIdle_forall {r : Conn × List PoolSlot} (hfresh : P fresh)
    (hpool : ∀ slot ∈ pool, P slot.conn) (h : takeIdle l fresh pool = some r) :
    P r.1 ∧ ∀ slot ∈ r.2, P slot.conn := by
  induction pool generalizing r with
  | nil => cases h
  | cons slot rest ih =>
    have hrest : ∀ s ∈ rest, P s.conn := fun s hs => hpool s (mem_cons_of_mem _ hs)
    have hslot : P slot.conn := hpool slot mem_cons_self
    unfold takeIdle at h
    split at h
    · obtain ⟨q, hq, rfl⟩ := map_eq_some_iff.mp h
      obtain ⟨hconn, hslots⟩ := ih hrest hq
      exact ⟨hconn, forall_mem_cons.mpr ⟨hslot, hslots⟩⟩
    · cases h
      have hconn : P (if l.idleAlive = true then slot.conn else fresh) := by
        split
        · exact hslot
        · exact hfresh
      exact ⟨hconn, forall_mem_cons.mpr ⟨hconn, hrest⟩⟩

/-- What holds of a pool's connections and of the one it would open, holds of the one it
hands out and of those it then has. -/
theorem poolAcquire_forall {r : Option Conn × List PoolSlot} (hfresh : P fresh)
    (hpool : ∀ slot ∈ pool, P slot.conn) (h : poolAcquire l fresh pool = some r) :
    (∀ conn, r.1 = some conn → P conn) ∧ ∀ slot ∈ r.2, P slot.conn := by
  unfold poolAcquire at h
  split at h
  case h_1 conn pool' htake =>
    cases h
    obtain ⟨hconn, hslots⟩ := takeIdle_forall hfresh hpool htake
    exact ⟨fun c hc => some.inj hc ▸ hconn, hslots⟩
  case h_2 =>
    split at h
    · split at h
      · cases h
        refine ⟨fun c hc => some.inj hc ▸ hfresh, fun slot hslot => ?_⟩
        rcases mem_append.mp hslot with hslot | hslot
        · exact hpool slot hslot
        · rw [mem_singleton] at hslot
          subst hslot
          exact hfresh
      · cases h
        exact ⟨by nofun, hpool⟩
    · cases h

end Pools

namespace Worker

variable {o : Outside} {w w' : Worker} {l : Lifecycle} {i : Nat}

/-! ## §2 The invariant -/

/-- A connection that may stand in the pool of a postgres backend. -/
def Poolable (o : Outside) (b : Backend) (conn : Conn) : Prop :=
  b.kind = .postgres → some conn.target = b.ownTarget o ∨ conn.target = b.poolTarget

/-- Default connections lead to their own database, the pools hold what was opened for
them, and so far every statement was executed where it should be. -/
structure Inv (o : Outside) (w : Worker) : Prop where
  default : ∀ i conn, (w.backends i).default = some conn → some conn.target =
    (w.backends i).ownTarget o
  pool : ∀ i, ∀ slot ∈ (w.backends i).pool, Poolable o (w.backends i) slot.conn
  executed : w.OnOwnDatabase o

/-- The thread as `thread_init` of backend `i` should leave it. -/
def Ready (o : Outside) (w : Worker) (i : Nat) (statements : List Bytes) : Prop :=
  match (w.backends i).kind with
  | .memory => True
  | .sqlite => (∀ sql ∈ statements, isSelect sql = false) ∨ w.HeldFor o i w.tReadDb
  | .postgres => w.HeldFor o i w.tlsConn
  | .redis => w.HeldFor o i w.tlsRedisConn

/-- A change of the pool of backend `i`. -/
def withPool (w : Worker) (i : Nat) (pool : List PoolSlot) : Nat → Backend :=
  Function.update w.backends i { w.backends i with pool := pool }

variable (pool : List PoolSlot) (j : Nat) (conn : Conn)

theorem withPool_apply :
    w.withPool i pool j =
      { w.backends j with pool := if j = i then pool else (w.backends j).pool } := by
  by_cases h : j = i
  · subst h
    simp [withPool]
  · simp [withPool, h]

@[simp] theorem kind_withPool : (w.withPool i pool j).kind = (w.backends j).kind := by
  rw [withPool_apply]

@[simp] theorem ownTarget_withPool :
    (w.withPool i pool j).ownTarget o = (w.backends j).ownTarget o := by
  rw [withPool_apply]
  rfl

@[simp] theorem poolable_withPool :
    Poolable o (w.withPool i pool j) conn ↔ Poolable o (w.backends j) conn := by
  rw [withPool_apply]
  rfl

theorem Inv.withPool (h : Inv o w) {pool : List PoolSlot}
    (hpool : ∀ slot ∈ pool, Poolable o (w.backends i) slot.conn)
    (hb : w'.backends = w.withPool i pool) (he : w'.executed = w.executed) : Inv o w' := by
  refine ⟨fun j conn => ?_, fun j slot => ?_, ?_⟩
  · rw [hb, ownTarget_withPool, withPool_apply]
    exact h.default j conn
  · rw [hb, poolable_withPool]
    by_cases hj : j = i
    · subst hj
      simp only [Worker.withPool, update_self]
      exact hpool slot
    · simp only [Worker.withPool, update_of_ne hj]
      exact h.pool j slot
  · intro e hmem
    rw [he] at hmem
    rw [hb, ownTarget_withPool]
    exact h.executed e hmem

variable {conn : Conn} {job : Job} {sql : Bytes} {statements : List Bytes}

theorem opened_default {kind : BackendKind} {dsn : Dsn}
    (h : (Backend.opened o i kind dsn).default = some conn) :
    some conn.target = (Backend.opened o i kind dsn).ownTarget o := by
  obtain ⟨t, ht, rfl⟩ := map_eq_some_iff.mp h
  exact ht.symm

theorem inv_start (o : Outside) (opened : Nat → BackendKind × Dsn) : Inv o (start o opened) := by
  refine ⟨fun i conn h => opened_default h, fun i slot hslot hkind => ?_, by nofun⟩
  -- the one connection in a postgres pool is the default connection
  have hkind : (opened i).1 = .postgres := hkind
  refine .inl (opened_default ?_)
  simp only [start, Backend.opened, hkind] at hslot ⊢
  obtain ⟨conn, hconn, rfl⟩ := mem_map.mp hslot
  exact mem_toList.mp hconn

/-! ## §3 One request -/

theorem Inv.acquire (h : Inv o w) {r : Option Conn × Worker} (hs : w.acquire l i = some r) :
    Inv o r.2 ∧ (∀ j, (r.2.backends j).ownTarget o = (w.backends j).ownTarget o) ∧
      (∀ j, (r.2.backends j).kind = (w.backends j).kind) ∧
      ∀ conn, r.1 = some conn → Poolable o (w.backends i) conn := by
  obtain ⟨q, hq, rfl⟩ := map_eq_some_iff.mp hs
  have hfresh : Poolable o (w.backends i) (w.fresh (w.backends i).poolTarget) := fun _ => .inr rfl
  obtain ⟨hconn, hslots⟩ := poolAcquire_forall hfresh (h.pool i) hq
  exact ⟨h.withPool hslots rfl rfl, ownTarget_withPool q.2, kind_withPool q.2, hconn⟩

theorem Inv.threadInit (h : Inv o w) (hjob : w.Undisturbed o job)
    (hs : w.threadInit job.lifecycle job.backend = some w') :
    Inv o w' ∧ Ready o w' job.backend job.statements := by
  unfold Worker.threadInit at hs
  unfold Undisturbed at hjob
  cases hkind : (w.backends job.backend).kind with
  | memory =>
    simp only [hkind] at hs
    cases hs
    exact ⟨h, by simp only [Ready, hkind]⟩
  | sqlite =>
    simp only [hkind] at hs hjob
    split at hs
    · cases hs
      exact ⟨h, by simpa only [Ready, hkind] using hjob⟩
    · cases hs
      refine ⟨⟨h.default, h.pool, h.executed⟩, ?_⟩
      simp only [Ready, hkind]
      refine .inr fun conn hconn => ?_
      cases hconn
      simp only [fresh, strlcpy_eq_self (w.backends job.backend).dsn.nul_not_mem
        (w.backends job.backend).dsn.fits, Backend.ownTarget, hkind]
  | postgres =>
    simp only [hkind] at hs hjob
    obtain ⟨hheld, hfits⟩ := hjob
    split at hs
    · cases hs
      exact ⟨h, by simpa only [Ready, hkind] using hheld⟩
    · obtain ⟨r, hr, rfl⟩ := map_eq_some_iff.mp hs
      obtain ⟨hinv, hown, hsame, hconn⟩ := h.acquire hr
      refine ⟨⟨hinv.default, hinv.pool, hinv.executed⟩, ?_⟩
      simp only [Ready, hsame, hkind]
      intro conn heq
      simp only [hown]
      rcases hconn conn heq hkind with hc | hc
      · exact hc
      · rw [hc]
        simp only [Backend.poolTarget, Backend.ownTarget, hkind,
          strlcpy_eq_self (w.backends job.backend).dsn.nul_not_mem hfits]
  | redis =>
    simp only [hkind] at hs hjob
    obtain ⟨hheld, hpool⟩ := hjob
    split at hs
    · cases hs
      exact ⟨h, by simpa only [Ready, hkind] using hheld⟩
    case isFalse hnone =>
      obtain ⟨hempty, hfail⟩ := hpool (by simpa using hnone)
      obtain ⟨r, hr, rfl⟩ := map_eq_some_iff.mp hs
      obtain ⟨hinv, hown, hsame, -⟩ := h.acquire hr
      refine ⟨⟨hinv.default, hinv.pool, hinv.executed⟩, ?_⟩
      -- the pool is empty and cannot be filled, so the thread stays without a connection
      have hnothing : r.1 = none := by
        obtain ⟨q, hq, rfl⟩ := map_eq_some_iff.mp hr
        simp only [poolAcquire, hempty, takeIdle, hfail, length_nil, poolMax] at hq
        cases hq
        rfl
      simp only [Ready, hsame, hkind]
      intro conn heq
      rw [hnothing] at heq
      cases heq

/-- A statement of a ready thread is executed on its own database. -/
theorem Inv.route (h : Inv o w) (hready : Ready o w i statements)
    (hsql : sql ∈ statements) (hroute : w.route i sql = some conn) :
    some conn.target = (w.backends i).ownTarget o := by
  have horElse : ∀ held : Option Conn, w.HeldFor o i held →
      (held <|> (w.backends i).default) = some conn → some conn.target =
      (w.backends i).ownTarget o := by
    intro held hheld hor
    cases held with
    | none => exact h.default i conn hor
    | some c => exact hheld conn hor
  unfold Worker.route at hroute
  unfold Ready at hready
  cases hkind : (w.backends i).kind with
  | memory =>
    simp only [hkind] at hroute
    cases hroute
  | sqlite =>
    simp only [hkind] at hroute hready
    split at hroute
    case isTrue hselect =>
      refine horElse _ (hready.resolve_left fun hno => ?_) hroute
      exact Bool.false_ne_true ((hno sql hsql).symm.trans hselect)
    case isFalse => exact h.default i conn hroute
  | postgres | redis =>
    simp only [hkind] at hroute hready
    exact horElse _ hready hroute

theorem Inv.execute (h : Inv o w) (hready : Ready o w i statements) (hsql : sql ∈ statements) :
    Inv o (w.execute i sql) ∧ Ready o (w.execute i sql) i statements := by
  unfold Worker.execute
  split
  case h_1 conn hroute =>
    refine ⟨⟨h.default, h.pool, ?_⟩, hready⟩
    exact forall_mem_cons.mpr ⟨h.route hready hsql hroute, h.executed⟩
  case h_2 => exact ⟨h, hready⟩

theorem Inv.executeAll (h : Inv o w) {all statements : List Bytes} (hready : Ready o w i all)
    (hsub : ∀ sql ∈ statements, sql ∈ all) :
    Inv o (statements.foldl (fun w sql => w.execute i sql) w) := by
  induction statements generalizing w with
  | nil => exact h
  | cons sql rest ih =>
    obtain ⟨hsql, hrest⟩ := forall_mem_cons.mp hsub
    obtain ⟨hinv, hready'⟩ := h.execute hready hsql
    exact ih hinv hready' hrest

theorem Inv.serve (h : Inv o w) (hjob : w.Undisturbed o job) (hs : w.serve job = some w') :
    Inv o w' := by
  obtain ⟨w₁, hinit, rfl⟩ := map_eq_some_iff.mp hs
  obtain ⟨hinv, hready⟩ := h.threadInit hjob hinit
  exact hinv.executeAll hready fun _ hsql => hsql

/-! ## §4 Runs -/

theorem onOwnDatabase_of_undisturbed (o : Outside) (opened : Nat → BackendKind × Dsn)
    (jobs : List Job) (w : Worker)
    (hundisturbed : Run.Along serve (Undisturbed o) jobs (start o opened))
    (hrun : Run.run serve jobs (start o opened) = some w) : w.OnOwnDatabase o :=
  (Run.invariant_of_run (fun _ _ _ h hjob hs => h.serve hjob hs) (inv_start o opened) hundisturbed
    hrun).executed

/-- The server's own URL, and those of two tenants. -/
def threeUrls (scheme : String) (hscheme : scheme ∈ ["", "postgres://db/"]) (i : Nat) : Dsn where
  text := lit scheme ++ lit (if i = 0 then "sso" else if i = 1 then "sso_a" else "sso_b")
  nul_not_mem := by
    simp only [List.mem_cons, List.not_mem_nil, or_false] at hscheme
    rcases hscheme with rfl | rfl <;> split_ifs <;> decide
  fits := by
    simp only [List.mem_cons, List.not_mem_nil, or_false] at hscheme
    rcases hscheme with rfl | rfl <;> split_ifs <;> decide

/-- Requests of these tenants that read once. -/
def reads (tenants : List Nat) : List Job :=
  tenants.map fun i =>
    { backend := i
      statements := [lit "SELECT id FROM users"]
      lifecycle := { idleAlive := true, connectOk := true } }

def postgresBackends (i : Nat) : BackendKind × Dsn :=
  (.postgres, threeUrls "postgres://db/" (by decide) i)

def sqliteBackends (i : Nat) : BackendKind × Dsn := (.sqlite, threeUrls "" (by decide) i)

theorem postgres_tenants_undisturbed :
    ∃ w, Run.run serve (reads [1, 1]) (start plainOutside postgresBackends) = some w ∧
      w.OnOwnDatabase plainOutside ∧ w.executed.length = 2 := by
  refine ⟨_, rfl, onOwnDatabase_of_undisturbed _ postgresBackends (reads [1, 1]) _ ?_ rfl, rfl⟩
  refine Run.Along.cons ⟨by nofun, ?_⟩ rfl (Run.Along.cons ⟨?_, ?_⟩ rfl trivial)
  · decide
  · rintro conn ⟨⟩
    decide +kernel
  · decide

/-- The read connection of the first tenant stays with the thread: the second tenant's
`SELECT` runs on the first tenant's file. -/
theorem sqlite_read_misrouted :
    ∃ w, Run.run serve (reads [1, 2]) (start plainOutside sqliteBackends) = some w ∧
      w.executed = [(2, .sqlite (lit "sso_a")), (1, .sqlite (lit "sso_a"))] ∧
      ¬ w.OnOwnDatabase plainOutside := by
  have hexec : ∀ w, Run.run serve (reads [1, 2]) (start plainOutside sqliteBackends) = some w →
      w.executed = [(2, .sqlite (lit "sso_a")), (1, .sqlite (lit "sso_a"))] ∧
        (w.backends 2).ownTarget plainOutside = some (.sqlite (lit "sso_b")) := by
    rintro w ⟨⟩
    exact ⟨by decide +kernel, by decide +kernel⟩
  refine ⟨_, rfl, (hexec _ rfl).1, fun h => ?_⟩
  have hown := h (2, .sqlite (lit "sso_a")) ((hexec _ rfl).1 ▸ mem_cons_self)
  rw [(hexec _ rfl).2] at hown
  exact absurd hown (by decide)

end Worker

end SsoSystem
