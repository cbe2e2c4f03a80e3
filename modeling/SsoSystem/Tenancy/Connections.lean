/-
SsoSystem.Tenancy.Connections — on which connection a worker thread executes
the statements of a request: the thread-local connections and the pools of
src/storage_sqlite.c, src/storage_postgres.c and src/storage_redis.c, with
the calls `mhd_access_handler` and `mhd_completed_cb` (src/server_mhd.c) make
around a request.

Each backend kind has one thread-local connection for all backends of that
kind. `thread_init` is called on the backend of the request's tenant;
`thread_cleanup` would be called on the backend of the server's own context,
but the callback does not learn which server it is (`completionCls`). Whether
an idle connection is still alive and whether a new one comes about is decided
outside (`Lifecycle`). A connection is known by what it was opened with.

The redis pool connects to the host, port and database number kept in the
backend's private data, which `redis_open` never fills in.
-/
import SsoSystem.Tenancy.Dsn

namespace SsoSystem

open CMem

/-! ## §1 Connections and backends -/

/-- What a connection was opened with. -/
inductive Target where
  | sqlite (dsn : Bytes)
  | postgres (dsn : Bytes)
  | redis (host : Bytes) (port db : Int32)
  deriving DecidableEq, Repr

/-- Which connection it is: the one a backend was opened with, or one opened later. -/
inductive ConnId where
  | opened (backend : Nat)
  | later (n : Nat)
  deriving DecidableEq, Repr

structure Conn where
  id : ConnId
  target : Target
  deriving DecidableEq, Repr

/-- One slot of a pool. -/
structure PoolSlot where
  conn : Conn
  inUse : Bool
  deriving DecidableEq, Repr

/-- The DSN of an opened backend; it comes from a buffer of 1024 bytes. -/
structure Dsn where
  text : Bytes
  nul_not_mem : (0 : UInt8) ∉ text
  fits : text.length < 1024

/-- A storage backend with its private data. -/
structure Backend where
  kind : BackendKind
  dsn : Dsn
  /-- `db`, `conn` or `ctx`. -/
  default : Option Conn
  pool : List PoolSlot

/-- What a backend's DSN stands for; a backend in memory has no connections. -/
def Backend.ownTarget (o : Outside) (b : Backend) : Option Target :=
  match b.kind with
  | .memory => none
  | .sqlite => some (.sqlite b.dsn.text)
  | .postgres => some (.postgres b.dsn.text)
  | .redis =>
    some (.redis (redisAddress o b.dsn.text).1 (redisAddress o b.dsn.text).2
      (max (parseRedisDsn b.dsn.text).db 0))

/-- The backend with index `i` after `open`. The pool of postgres starts with the default
connection. -/
def Backend.opened (o : Outside) (i : Nat) (kind : BackendKind) (dsn : Dsn) : Backend :=
  let b : Backend := { kind := kind, dsn := dsn, default := none, pool := [] }
  let conn := (b.ownTarget o).map fun t => { id := .opened i, target := t : Conn }
  { b with
    default := conn
    pool := match kind with
      | .postgres => conn.toList.map fun c => { conn := c, inUse := false }
      | _ => [] }

/-- What a pool opens its connections with: postgres a copy of the DSN in 512 bytes, redis
the zeroed fields of its private data. -/
def Backend.poolTarget (b : Backend) : Target :=
  match b.kind with
  | .redis => .redis [] 0 0
  | _ => .postgres (strlcpy 512 b.dsn.text)

/-! ## §2 Pools -/

/-- `POSTGRES_POOL_MAX` and `REDIS_POOL_MAX`. -/
def poolMax : Nat := 16

/-- What the network does to a request: whether the connection that is reached for is still
alive, and whether a new one can be opened. -/
structure Lifecycle where
  idleAlive : Bool
  connectOk : Bool

/-- The first slot that is not in use, taken; a connection that has died is opened anew. -/
def takeIdle (l : Lifecycle) (fresh : Conn) : List PoolSlot → Option (Conn × List PoolSlot)
  | [] => none
  | slot :: rest =>
    if slot.inUse then (takeIdle l fresh rest).map fun r => (r.1, slot :: r.2)
    else
      let conn := if l.idleAlive then slot.conn else fresh
      some (conn, { conn := conn, inUse := true } :: rest)

/-- `postgres_pool_acquire` and `redis_pool_acquire`. The outer `none` is a thread that
waits for a connection; the inner one a connection that could not be opened. -/
def poolAcquire (l : Lifecycle) (fresh : Conn) (pool : List PoolSlot) :
    Option (Option Conn × List PoolSlot) :=
  match takeIdle l fresh pool with
  | some (conn, pool) => some (some conn, pool)
  | none =>
    if pool.length < poolMax then
      if l.connectOk then some (some fresh, pool ++ [{ conn := fresh, inUse := true }])
      else some (none, pool)
    else none

/-- `postgres_pool_release` and `redis_pool_release`. -/
def poolRelease (conn : Conn) (pool : List PoolSlot) : List PoolSlot :=
  pool.replaceF fun slot =>
    if slot.conn.id = conn.id then some { slot with inUse := false } else none

/-! ## §3 The worker thread -/

/-- The thread-local connections, the backends by index (0 is the server's own), the number
of the next connection, and the statements executed: through which backend, on what. -/
structure Worker where
  tReadDb : Option Conn
  tlsConn : Option Conn
  tlsRedisConn : Option Conn
  backends : Nat → Backend
  nextConn : Nat
  executed : List (Nat × Target)

namespace Worker

variable (o : Outside) (w : Worker) (job : Job)

/-- The next connection to be opened, to a target. -/
def fresh (t : Target) : Conn := { id := .later w.nextConn, target := t }

variable (l : Lifecycle) (i : Nat)

/-- A pooled connection for a thread that has none of this kind. -/
def acquire : Option (Option Conn × Worker) :=
  (poolAcquire l (w.fresh (w.backends i).poolTarget) (w.backends i).pool).map fun r =>
    (r.1,
      { w with
        nextConn := w.nextConn + 1
        backends := Function.update w.backends i { w.backends i with pool := r.2 } })

/-- `thread_init` of backend `i`. -/
def threadInit : Option Worker :=
  match (w.backends i).kind with
  | .memory => some w
  | .sqlite =>
    if w.tReadDb.isSome || !l.connectOk then some w
    else
      some
        { w with
          tReadDb := some (w.fresh (.sqlite (strlcpy 1024 (w.backends i).dsn.text)))
          nextConn := w.nextConn + 1 }
  | .postgres =>
    if w.tlsConn.isSome then some w
    else (w.acquire l i).map fun r => { r.2 with tlsConn := r.1 }
  | .redis =>
    if w.tlsRedisConn.isSome then some w
    else (w.acquire l i).map fun r => { r.2 with tlsRedisConn := r.1 }

/-- `thread_cleanup` of backend `i`. -/
def threadCleanup : Worker :=
  let release (conn : Conn) : Nat → Backend :=
    Function.update w.backends i { w.backends i with pool := poolRelease conn (w.backends i).pool }
  match (w.backends i).kind with
  | .postgres =>
    match w.tlsConn with
    | some conn => { w with backends := release conn, tlsConn := none }
    | none => w
  | .redis =>
    match w.tlsRedisConn with
    | some conn => { w with backends := release conn, tlsRedisConn := none }
    | none => w
  | _ => w

/-- What the daemon hands to the completion callback: `opts[1].ptr_value`, which is `NULL`. It
would be the server, here its own backend. -/
def completionCls : Option Nat := none

/-- `mhd_completed_cb`: without a server there is no backend to clean up. -/
def completed (cls : Option Nat) : Worker := cls.elim w w.threadCleanup

/-- The test of `sqlite_route_conn`: blanks, then `SELECT` in any case. -/
def isSelect (sql : Bytes) : Bool :=
  let body := sql.dropWhile fun b => b == 32 || b == 9 || b == 10 || b == 13
  (body.take 6).map (fun b => if 97 ≤ b.toNat && b.toNat ≤ 122 then b - 32 else b) == lit "SELECT"

/-- The connection a statement of backend `i` is executed on. -/
def route (sql : Bytes) : Option Conn :=
  match (w.backends i).kind with
  | .memory => none
  | .sqlite => if isSelect sql then w.tReadDb <|> (w.backends i).default else (w.backends i).default
  | .postgres => w.tlsConn <|> (w.backends i).default
  | .redis => w.tlsRedisConn <|> (w.backends i).default

/-- One statement; without a connection it is not executed. -/
def execute (sql : Bytes) : Worker :=
  match w.route i sql with
  | some conn => { w with executed := (i, conn.target) :: w.executed }
  | none => w

/-- A request: the backend of its tenant, its statements and what the network does. -/
structure Job where
  backend : Nat
  statements : List Bytes
  lifecycle : Lifecycle

/-- A request on the thread: `thread_init`, its statements, the completion callback. -/
def serve : Option Worker :=
  (w.threadInit job.lifecycle job.backend).map fun w =>
    (job.statements.foldl (fun w sql => w.execute job.backend sql) w).completed completionCls

/-- A thread that has served nothing yet, in a process with these backends open. -/
def start (opened : Nat → BackendKind × Dsn) : Worker where
  tReadDb := none
  tlsConn := none
  tlsRedisConn := none
  backends := fun i => .opened o i (opened i).1 (opened i).2
  nextConn := 0
  executed := []

/-- Every statement was executed on a connection opened with the URL of its own backend. -/
def OnOwnDatabase : Prop :=
  ∀ e ∈ w.executed, some e.2 = (w.backends e.1).ownTarget o

/-- A thread-local connection, if there is one, was opened with the URL of backend `i`. -/
def HeldFor (held : Option Conn) : Prop :=
  ∀ conn, held = some conn → some conn.target = (w.backends i).ownTarget o

/-- The request finds no foreign connection on the thread, and its own backend would not
hand it one: a sqlite request reads nothing or the thread's read connection is its own,
a postgres URL fits into the copy the pool uses, and the redis pool is out of use. -/
def Undisturbed : Prop :=
  match (w.backends job.backend).kind with
  | .memory => True
  | .sqlite => (∀ sql ∈ job.statements, isSelect sql = false) ∨ w.HeldFor o job.backend w.tReadDb
  | .postgres =>
    w.HeldFor o job.backend w.tlsConn ∧ (w.backends job.backend).dsn.text.length < 512
  | .redis =>
    w.HeldFor o job.backend w.tlsRedisConn ∧
      (w.tlsRedisConn = none →
        (w.backends job.backend).pool = [] ∧ job.lifecycle.connectOk = false)

end Worker

end SsoSystem
