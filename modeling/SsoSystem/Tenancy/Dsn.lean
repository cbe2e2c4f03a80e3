/-
SsoSystem.Tenancy.Dsn — the databases a backend can be opened on: the kinds of
backends, what lies behind a name outside of the program, and the DSN parser of
`redis_open` (src/storage_redis.c).

What SQLite, libpq and a Redis Sentinel find under a name is decided outside
(`Outside`). A Redis DSN is a URL with or without a Sentinel, or `host:port`;
the parser copies it into buffers of 256 and 64 bytes and reads the numbers
with `atoi`, which stops at the first byte that is no digit.
-/
import SsoSystem.Lib.Run
import SsoSystem.Strategy.Location

namespace SsoSystem

open CMem

/-! ## §1 Backends -/

inductive BackendKind where
  | memory | sqlite | postgres | redis
  deriving DecidableEq, Repr

/-- What lies behind a name, outside the program. -/
structure Outside where
  /-- The file SQLite opens for a name. -/
  sqliteFile : Bytes → Bytes
  /-- The database libpq connects to for a connection string. -/
  postgresDatabase : Bytes → Bytes
  /-- The address the Sentinel at a host and port gives for a master. -/
  sentinelMaster : Bytes → Int32 → Bytes → Bytes × Int32

/-- An outside in which every name stands for itself. -/
def plainOutside : Outside where
  sqliteFile := id
  postgresDatabase := id
  sentinelMaster := fun host port _ => (host, port)

/-! ## §2 Redis DSNs -/

def atoi (s : Bytes) : Int32 := (atoiU s).toInt32

/-- `strchr` and a cut: the text before the first `c` and, if there is one, the text after. -/
def cutAt (c : UInt8) (s : Bytes) : Bytes × Option Bytes :=
  (s.takeWhile (· != c), (s.dropWhile (· != c)).tail?)

/-- What `redis_open` reads from a DSN; the master is given by a Sentinel URL only. -/
structure RedisDsn where
  master : Option Bytes
  host : Bytes
  port : Int32
  db : Int32

/-- The part after the credentials, in 256 bytes. -/
def redisHostPart (p : Bytes) : Bytes :=
  strlcpy 256 (match (cutAt 64 p).2 with
    | some rest => rest
    | none => p)

/-- Host, port and database number of `host[:port][/db]`. -/
def redisAddressPart (master : Option Bytes) (buf : Bytes) : RedisDsn :=
  let (front, db) := cutAt 47 buf
  let (host, port) := cutAt 58 front
  { master := master
    host := host
    port := (port.map atoi).getD 6379
    db := (db.map atoi).getD 0 }

/-- The master name after `master=`, in 64 bytes. -/
def sentinelName (query : Option Bytes) : Bytes :=
  match query.bind (strstr (lit "master=")) with
  | some (_, found) => (cutAt 38 (strlcpy 64 (found.drop 7))).1
  | none => lit "mymaster"

/-- The DSN parser of `redis_open`. -/
def parseRedisDsn (dsn : Bytes) : RedisDsn :=
  if dsn = [] then { master := none, host := lit "127.0.0.1", port := 6379, db := 0 }
  else if (lit "redis-sentinel://").isPrefixOf dsn then
    let (buf, query) := cutAt 63 (redisHostPart (dsn.drop 17))
    redisAddressPart (some (sentinelName query)) buf
  else if (lit "redis://").isPrefixOf dsn then redisAddressPart none (redisHostPart (dsn.drop 8))
  else
    -- the format host:port has no database number
    let (host, port) := cutAt 58 (strlcpy 256 dsn)
    { master := none
      host := if port.isSome then host else strlcpy 256 dsn
      port := (port.map atoi).getD 6379
      db := 0 }

/-- Host and port `redis_open` connects to, after a Sentinel was asked. -/
def redisAddress (o : Outside) (dsn : Bytes) : Bytes × Int32 :=
  let d := parseRedisDsn dsn
  match d.master with
  | some master =>
    let (host, port) := o.sentinelMaster d.host d.port master
    (strlcpy 256 host, port)
  | none => (d.host, d.port)

end SsoSystem
