/-
SsoSystem.Tenancy.RedisPool — the pool of a Redis backend under any number of
worker threads and any schedule of their requests (`redis_pool_acquire` and
`redis_thread_init` in src/storage_redis.c, `mhd_completed_cb` in
src/server_mhd.c).

The pool opens its connections with `priv->host` and `priv->port`.
`storage_redis_create` zeroes both and nothing assigns them, since `redis_open`
parses the URL into variables of its own. So every connect of the pool is one
to the empty host and port 0. Where hiredis refuses that (`RefusesNoHost`), the
pool stays empty, `redis_pool_acquire` returns `NULL` at once and no thread
waits; the requests run on the backend's own connection.

That no connection has two holders does not need it (`Inv.exclusive`): the
completion callback is handed `NULL` and gives nothing back, so every
connection of the pool stays with the thread it was opened for.
-/
import SsoSystem.Tenancy.Connections

namespace SsoSystem

open CMem Run Function

/-! ## §1 Threads and the pool -/

/-- What a request meets: whether an idle connection is still alive, and what
`redisConnect` does with a host and a port. -/
structure RedisNetwork where
  idleAlive : Bool
  redisConnect : Bytes → Int → Bool

/-- The private data of the backend and, for every worker thread, its connection, how many of
its requests are in progress, and whether it is blocked in `pthread_cond_wait`. -/
structure RedisWorkers where
  host : Bytes
  port : Int
  pool : List PoolSlot
  nextConn : Nat
  tlsRedisConn : Nat → Option Conn
  active : Nat → Nat
  waiting : Nat → Bool

/-- A request starts on a thread, the wait of a thread returns, a request ends. -/
inductive WorkerEvent where
  | request (t : Nat) (net : RedisNetwork)
  | wake (t : Nat) (net : RedisNetwork)
  | completed (t : Nat)

namespace RedisWorkers

/-- `storage_redis_create` and `redis_open`: the fields `host` and `port` stay as `calloc` left
them. -/
def start : RedisWorkers where
  host := []
  port := 0
  pool := []
  nextConn := 0
  tlsRedisConn := fun _ => none
  active := fun _ => 0
  waiting := fun _ => false

variable (s : RedisWorkers)

/-- A turn of the loop of `redis_pool_acquire` on thread `t`. -/
def acquire (t : Nat) (net : RedisNetwork) : RedisWorkers :=
  let l := { idleAlive := net.idleAlive, connectOk := net.redisConnect s.host s.port }
  match poolAcquire l { id := .later s.nextConn, target := .redis [] 0 0 } s.pool with
  | none => { s with waiting := Function.update s.waiting t true }
  | some (conn, pool) =>
    { s with
      pool := pool
      nextConn := s.nextConn + 1
      tlsRedisConn := Function.update s.tlsRedisConn t conn
      active := Function.update s.active t (s.active t + 1)
      waiting := Function.update s.waiting t false }

/-- `redis_thread_init`. -/
def threadInit (t : Nat) (net : RedisNetwork) : RedisWorkers :=
  if (s.tlsRedisConn t).isSome then
    { s with active := Function.update s.active t (s.active t + 1) }
  else s.acquire t net

/-- `redis_thread_cleanup`. -/
def threadCleanup (t : Nat) : RedisWorkers :=
  match s.tlsRedisConn t with
  | none => s
  | some conn =>
    { s with
      pool := poolRelease conn s.pool
      tlsRedisConn := Function.update s.tlsRedisConn t none }

/-- `mhd_completed_cb`, with what the daemon hands to it. -/
def completed (t : Nat) : RedisWorkers :=
  let s := Worker.completionCls.elim s fun _ => s.threadCleanup t
  { s with active := Function.update s.active t (s.active t - 1) }

/-- A thread that waits does nothing else. -/
def step : WorkerEvent → Option RedisWorkers
  | .request t net => some (if s.waiting t then s else s.threadInit t net)
  | .wake t net => some (if s.waiting t then s.acquire t net else s)
  | .completed t => some (if s.waiting t || s.active t == 0 then s else s.completed t)

/-- No two threads have the same connection. -/
def Exclusive : Prop :=
  ∀ t u c d, t ≠ u → s.tlsRedisConn t = some c → s.tlsRedisConn u = some d → c.id ≠ d.id

/-- hiredis does not connect to the empty host and port 0. -/
def RefusesNoHost : WorkerEvent → Prop
  | .request _ net | .wake _ net => net.redisConnect [] 0 = false
  | .completed _ => True

/-- Nobody waits for a connection, and a further request of any thread is served: it is in
progress right after its start, and nobody waits then either. -/
structure Serves : Prop where
  noneWaiting : ∀ t, s.waiting t = false
  goesOn : ∀ t net, net.redisConnect [] 0 = false → ∃ s', s.step (.request t net) = some s' ∧
    s'.active t = s.active t + 1 ∧ ∀ u, s'.waiting u = false

/-! ## §2 No connection has two holders -/

/-- A pool without an idle slot has nothing to hand out. -/
theorem takeIdle_eq_none {l : Lifecycle} {fresh : Conn} {pool : List PoolSlot}
    (h : ∀ slot ∈ pool, slot.inUse = true) : takeIdle l fresh pool = none := by
  induction pool with
  | nil => rfl
  | cons slot pool ih =>
    obtain ⟨hslot, hpool⟩ := List.forall_mem_cons.mp h
    rw [takeIdle, if_pos hslot, ih hpool, Option.map_none]

/-- The private fields are zero, all connections are in use, those of the threads differ and
are older than the next one. -/
structure Inv (s : RedisWorkers) : Prop where
  unset : s.host = [] ∧ s.port = 0
  inUse : ∀ slot ∈ s.pool, slot.inUse = true
  exclusive : s.Exclusive
  older : ∀ t c, s.tlsRedisConn t = some c → ∃ k < s.nextConn, c.id = .later k

variable {s s' : RedisWorkers} {t : Nat} {net : RedisNetwork} {e : WorkerEvent}

/-- A thread opens a connection of its own, gets none, or waits. -/
theorem acquire_eq (h : s.Inv) : s.acquire t net =
    if s.pool.length < poolMax then
      let conn := { id := .later s.nextConn, target := .redis [] 0 0 : Conn }
      let ok := net.redisConnect [] 0
      { s with
        pool := if ok then s.pool ++ [{ conn := conn, inUse := true }] else s.pool
        nextConn := s.nextConn + 1
        tlsRedisConn := update s.tlsRedisConn t (if ok then some conn else none)
        active := update s.active t (s.active t + 1)
        waiting := update s.waiting t false }
    else { s with waiting := update s.waiting t true } := by
  unfold acquire poolAcquire
  dsimp only
  rw [h.unset.1, h.unset.2, takeIdle_eq_none h.inUse]
  by_cases hroom : s.pool.length < poolMax
  · cases hok : net.redisConnect [] 0 <;> simp [hroom]
  · simp [hroom]

theorem Inv.acquire (h : s.Inv) : (s.acquire t net).Inv := by
  rw [acquire_eq h]
  split
  · have hnew : ∀ {c : Conn}, (if net.redisConnect [] 0 then
        some { id := .later s.nextConn, target := .redis [] 0 0 : Conn } else none) = some c →
        c.id = .later s.nextConn := by
      intro c hc
      split at hc
      · exact Option.some.inj hc ▸ rfl
      · cases hc
    have hold : ∀ {u c}, s.tlsRedisConn u = some c → c.id ≠ .later s.nextConn := by
      intro u c hc heq
      obtain ⟨k, hk, hid⟩ := h.older u c hc
      exact Nat.ne_of_lt hk (ConnId.later.inj (hid.symm.trans heq))
    refine ⟨h.unset, ?_, fun u v c d huv hc hd => ?_, fun u c hc => ?_⟩
    · dsimp only
      split
      · simpa [or_imp, forall_and] using h.inUse
      · exact h.inUse
    · simp only [update_apply] at hc hd
      split at hc <;> split at hd
      · next hu hv => exact absurd (hu.trans hv.symm) huv
      · rw [hnew hc]
        exact (hold hd).symm
      · rw [hnew hd]
        exact hold hc
      · exact h.exclusive u v c d huv hc hd
    · simp only [update_apply] at hc
      split at hc
      · exact ⟨s.nextConn, Nat.lt_succ_self _, hnew hc⟩
      · exact (h.older u c hc).imp fun k hk => ⟨Nat.lt_succ_of_lt hk.1, hk.2⟩
  · exact ⟨h.unset, h.inUse, h.exclusive, h.older⟩

theorem Inv.step (h : s.Inv) (hstep : s.step e = some s') : s'.Inv := by
  cases e with
  | request t net =>
    cases hstep
    unfold threadInit
    split_ifs
    · exact h
    · exact ⟨h.unset, h.inUse, h.exclusive, h.older⟩
    · exact h.acquire
  | wake t net =>
    cases hstep
    split_ifs
    · exact h.acquire
    · exact h
  | completed t =>
    cases hstep
    split_ifs
    · exact h
    · exact ⟨h.unset, h.inUse, h.exclusive, h.older⟩

theorem inv_start : start.Inv :=
  ⟨⟨rfl, rfl⟩, by nofun, by nofun, by nofun⟩

/-! ## §3 Nobody waits -/

/-- The pool is empty, so that nobody has a connection of it or waits for one. -/
structure Unpooled (s : RedisWorkers) : Prop where
  inv : s.Inv
  empty : s.pool = []
  unheld : ∀ t, s.tlsRedisConn t = none
  noneWaiting : ∀ t, s.waiting t = false

/-- A refused connect leaves the request without a connection, and in progress. -/
theorem Unpooled.acquire (h : s.Unpooled) (hnet : net.redisConnect [] 0 = false) :
    (s.acquire t net).Unpooled ∧ (s.acquire t net).active t = s.active t + 1 := by
  have hinv : (s.acquire t net).Inv := h.inv.acquire
  have hroom : s.pool.length < poolMax := by
    rw [h.empty]
    decide
  rw [acquire_eq h.inv, if_pos hroom] at hinv ⊢
  refine ⟨⟨hinv, ?_, fun u => ?_, fun u => ?_⟩, update_self ..⟩
  · simp [hnet, h.empty]
  · simp [hnet, update_apply, h.unheld]
  · simp [update_apply, h.noneWaiting]

theorem Unpooled.request (h : s.Unpooled) (hnet : net.redisConnect [] 0 = false) :
    ∃ s', s.step (.request t net) = some s' ∧ s'.Unpooled ∧ s'.active t = s.active t + 1 := by
  refine ⟨s.acquire t net, ?_, h.acquire hnet⟩
  simp [RedisWorkers.step, threadInit, h.noneWaiting, h.unheld]

theorem Unpooled.step (h : s.Unpooled) (he : RefusesNoHost e) (hstep : s.step e = some s') :
    s'.Unpooled := by
  cases e with
  | request t net =>
    obtain ⟨_, hreq, hnext, -⟩ := h.request (t := t) he
    rw [hstep] at hreq
    exact Option.some.inj hreq ▸ hnext
  | wake t net =>
    simp only [RedisWorkers.step, h.noneWaiting, Bool.false_eq_true, if_false] at hstep
    exact Option.some.inj hstep ▸ h
  | completed t =>
    have hinv := h.inv.step hstep
    cases hstep
    split_ifs at hinv ⊢
    · exact h
    · exact ⟨hinv, h.empty, h.unheld, h.noneWaiting⟩

/-! ## §4 Runs -/

/-- **The pool under every schedule.** No connection is ever held by two threads; and where
hiredis refuses the empty host, no thread ever waits and every further request is served. -/
theorem pool_serves {es : List WorkerEvent} {s : RedisWorkers}
    (hrun : run step es start = some s) :
    s.Exclusive ∧ ((∀ e ∈ es, RefusesNoHost e) → s.Serves) := by
  refine ⟨(invariant_of_steps (fun _ _ _ => Inv.step) inv_start hrun).exclusive, fun hes => ?_⟩
  have hall : Along step (fun _ => RefusesNoHost) es start := along_of_forall hes start
  have hun : s.Unpooled := invariant_of_run (fun _ _ _ h he hstep => Unpooled.step h he hstep)
    ⟨inv_start, rfl, fun _ => rfl, fun _ => rfl⟩ hall hrun
  refine ⟨hun.noneWaiting, fun t net hnet => ?_⟩
  obtain ⟨s', hstep, hnext, hactive⟩ := hun.request (t := t) hnet
  exact ⟨s', hstep, hactive, hnext.noneWaiting⟩

/-- A network on which every host with a name and a port answers. -/
def namedHosts : RedisNetwork where
  idleAlive := true
  redisConnect := fun host port => host ≠ [] && port ≠ 0

/-- Seventeen threads with a request each, all in progress at the same time, and then done. -/
def seventeenRequests : List WorkerEvent :=
  (List.range 17).map (.request · namedHosts) ++ (List.range 17).map .completed

/-- All seventeen are served, and a second request of the last thread too. -/
theorem seventeenRequests_served : ∃ s, run step seventeenRequests start = some s ∧
    s.Exclusive ∧ s.Serves := by
  have hnet : ∀ e ∈ seventeenRequests, RefusesNoHost e := by
    intro e he
    rcases List.mem_append.mp he with he | he <;> obtain ⟨t, -, rfl⟩ := List.mem_map.mp he
    · rfl
    · trivial
  obtain ⟨s, hrun⟩ : ∃ s, run step seventeenRequests start = some s :=
    Option.isSome_iff_exists.mp (by decide +kernel)
  obtain ⟨hex, hserves⟩ := pool_serves hrun
  exact ⟨s, hrun, hex, hserves hnet⟩

end RedisWorkers

end SsoSystem
