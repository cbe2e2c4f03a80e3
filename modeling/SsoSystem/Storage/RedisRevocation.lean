/-
SsoSystem.Storage.RedisRevocation — revoked token ids on a shared Redis server
(src/storage_redis.c).

`redis_jti_revoke` puts a key with a lifetime on the server, adds the token id
to a Bloom filter of its own process and publishes it; `redis_jti_is_revoked`
asks the server only if the filter of the asking process might hold the id.
Other processes hear of the id through their subscription, if it stands, and a
process starts with an empty filter. The server does what the command says: a
key set for a number of seconds is there until they are over.
-/
import SsoSystem.Lib.Run
import SsoSystem.Types

namespace SsoSystem.Redis

open CMem Run List Option Function

/-! ## §1 The Bloom filter -/

/-- `int c = *str`: a `char` with its sign. -/
def signedChar (c : UInt8) : UInt32 := c.toInt8.toInt32.toUInt32

def djb2Hash (str : Bytes) : UInt32 :=
  str.foldl (fun hash c => ((hash <<< 5) + hash) + signedChar c) 5381

def fnv1aHash (str : Bytes) : UInt32 :=
  str.foldl (fun hash c => (hash ^^^ signedChar c) * 16777619) 2166136261

/-- `BLOOM_SIZE` bytes have eight bits each. -/
def bloomBits : UInt32 := 1024 * 1024 * 8

/-- The bits that are set; all others are zero. -/
abbrev Bloom := List UInt32

variable (bloom : Bloom) (jti : Bytes)

def bloomAdd : Bloom :=
  djb2Hash jti % bloomBits :: fnv1aHash jti % bloomBits :: bloom

def bloomMightContain : Bool :=
  bloom.contains (djb2Hash jti % bloomBits) && bloom.contains (fnv1aHash jti % bloomBits)

theorem bloomMightContain_bloomAdd_self : bloomMightContain (bloomAdd bloom jti) jti = true := by
  simp [bloomMightContain, bloomAdd]

theorem bloomMightContain_bloomAdd {bloom : Bloom} {jti : Bytes}
    (h : bloomMightContain bloom jti = true) (other : Bytes) :
    bloomMightContain (bloomAdd bloom other) jti = true := by
  simp only [bloomMightContain, contains_eq_mem, Bool.and_eq_true, decide_eq_true_eq] at h ⊢
  exact ⟨by simp [bloomAdd, h.1], by simp [bloomAdd, h.2]⟩

/-! ## §2 Nodes and their server -/

/-- The nodes and the server they share, at one moment. -/
structure Nodes where
  /-- The clock, in milliseconds. -/
  now : Int
  /-- The keys `revoked_jti:…` with the moment each one ends. -/
  keys : Bytes → Option Int
  /-- The filters of the processes that run. -/
  bloom : Nat → Option Bloom
  /-- The calls `redis_jti_revoke(j, e)` with `e` in the future that returned SSO_OK. -/
  revoked : List (Bytes × Int)

/-- What became of the `SETEX`. -/
inductive SetexResult where
  | ok
  /-- The server has run it, the reply was lost. -/
  | replyLost
  | refused

inductive NodeEvent where
  /-- A process starts, or starts again. -/
  | start (n : Nat)
  | stop (n : Nat)
  /-- A millisecond goes by. -/
  | tick
  /-- The subscriber thread of a process reads a published id; it may never, or late. -/
  | receive (n : Nat) (jti : Bytes)
  | revoke (n : Nat) (jti : Bytes) (expiresAt : Int) (setex : SetexResult)

namespace Nodes

variable (s : Nodes) (n : Nat) (bloom : Bloom) (jti : Bytes) (expiresAt : Int)

/-- `EXISTS revoked_jti:…`. -/
def keyStands : Bool := (s.keys jti).any fun till => s.now < till

/-- `redis_jti_is_revoked` in a process. -/
def jtiIsRevoked : Bool :=
  if !bloomMightContain bloom jti then false else s.keyStands jti

/-- The lifetime `redis_jti_revoke` gives the key: whole seconds, as an `int`. -/
def ttlSec (now expiresAt : Int) : Int :=
  let ttl := (Int32.ofInt ((expiresAt - now).tdiv 1000)).toInt
  if ttl ≤ 0 then 1 else ttl

/-- `SETEX revoked_jti:…`. -/
def setex : Nodes :=
  { s with keys := Function.update s.keys jti (some (s.now + 1000 * ttlSec s.now expiresAt)) }

/-- `SETEX` and, once it has succeeded, the local filter and `PUBLISH`. -/
def jtiRevoke : SetexResult → Nodes
  | .refused => s
  | .replyLost => s.setex jti expiresAt
  | .ok => { s.setex jti expiresAt with
      bloom := Function.update s.bloom n (some (bloomAdd bloom jti))
      revoked := (jti, expiresAt) :: s.revoked }

def step : NodeEvent → Option Nodes
  | .start n => some { s with bloom := Function.update s.bloom n (some []) }
  | .stop n => some { s with bloom := Function.update s.bloom n none }
  | .tick => some { s with now := s.now + 1 }
  | .receive n jti => some <|
      if s.revoked.any (fun p => p.1 == jti) then
        { s with bloom := Function.update s.bloom n ((s.bloom n).map (bloomAdd · jti)) }
      else s
  | .revoke n jti expiresAt setex => some <|
      match s.bloom n with
      | none => s
      -- what has expired needs no revocation: SSO_OK, and nothing is done
      | some bloom => if expiresAt ≤ s.now then s else s.jtiRevoke n bloom jti expiresAt setex

/-- Before any process runs. -/
def fresh (now : Int) : Nodes := ⟨now, fun _ => none, fun _ => none, []⟩

/-- Each node sees every revocation that returned SSO_OK until the token expires. -/
def Kept : Prop :=
  ∀ p ∈ s.revoked, s.now < p.2 → ∀ n bloom, s.bloom n = some bloom → s.jtiIsRevoked bloom p.1 = true

/-! ## §3 What keeps a revocation seen -/

/-- No process starts while a revocation is due; a key outlasts its revocation on the clock; and
a revocation finds the bits of the id set at all other nodes. -/
def Covered : NodeEvent → Prop
  | .start _ => ∀ p ∈ s.revoked, p.2 ≤ s.now
  | .tick => ∀ p ∈ s.revoked, s.now + 1 < p.2 → (∃ n, (s.bloom n).isSome) →
      ({ s with now := s.now + 1 } : Nodes).keyStands p.1 = true
  | .revoke n jti expiresAt setex => setex = .ok → s.now < expiresAt → (s.bloom n).isSome →
      ∀ m bloom, m ≠ n → s.bloom m = some bloom → bloomMightContain bloom jti = true
  | _ => True

variable {s} {n : Nat} {bloom : Bloom} {jti : Bytes} {expiresAt : Int}

theorem jtiIsRevoked_iff : s.jtiIsRevoked bloom jti = true ↔
    bloomMightContain bloom jti = true ∧ s.keyStands jti = true := by
  unfold jtiIsRevoked
  cases bloomMightContain bloom jti <;> simp

theorem ttlSec_pos (now expiresAt : Int) : 0 < ttlSec now expiresAt := by
  unfold ttlSec
  dsimp only
  split_ifs with h
  · decide
  · omega

theorem keyStands_setex (other : Bytes) (h : other = jti ∨ s.keyStands other = true) :
    (s.setex jti expiresAt).keyStands other = true := by
  by_cases hj : other = jti
  · have hpos := ttlSec_pos s.now expiresAt
    have hset : (s.setex jti expiresAt).keys other =
      some (s.now + 1000 * ttlSec s.now expiresAt) := by
      rw [hj]
      exact update_self ..
    have hlater : s.now < s.now + 1000 * ttlSec s.now expiresAt := by omega
    rw [keyStands, hset]
    exact decide_eq_true hlater
  · have hsame : (s.setex jti expiresAt).keys other = s.keys other := update_of_ne hj _ _
    rw [keyStands, hsame]
    exact h.resolve_left hj

/-- A change of one process that takes no bit from its filter keeps all revocations. -/
theorem Kept.update (h : s.Kept) {changed : Option Bloom} (hbits : ∀ bloom, changed = some bloom →
      ∃ old, s.bloom n = some old ∧
        ∀ jti, bloomMightContain old jti = true → bloomMightContain bloom jti = true) :
    ({ s with bloom := Function.update s.bloom n changed } : Nodes).Kept := by
  intro p hp hnow m bloom hbloom
  by_cases hm : m = n
  · rw [hm] at hbloom
    obtain ⟨old, hold, hgrown⟩ := hbits bloom (by simpa using hbloom)
    have hseen := jtiIsRevoked_iff.mp (h p hp hnow n old hold)
    exact jtiIsRevoked_iff.mpr ⟨hgrown p.1 hseen.1, hseen.2⟩
  · exact h p hp hnow m bloom (by simpa only [update_of_ne hm] using hbloom)

theorem kept_start_iff : ({ s with bloom := Function.update s.bloom n (some []) } : Nodes).Kept ↔
    ∀ p ∈ s.revoked, p.2 ≤ s.now := by
  constructor
  · intro hk p hp
    refine Int.not_lt.mp fun hnow => ?_
    -- the empty filter denies every id
    have hseen := jtiIsRevoked_iff.mp (hk p hp hnow n _ (update_self ..))
    exact absurd hseen.1 (by simp [bloomMightContain])
  · intro hdue p hp hnow
    exact absurd hnow (Int.not_lt.mpr (hdue p hp))

theorem kept_tick_iff (h : s.Kept) :
    ({ s with now := s.now + 1 } : Nodes).Kept ↔ s.Covered .tick := by
  constructor
  · rintro hk p hp hnow ⟨n, hn⟩
    obtain ⟨bloom, hbloom⟩ := isSome_iff_exists.mp hn
    exact (jtiIsRevoked_iff.mp (hk p hp hnow n bloom hbloom)).2
  · intro hc p hp hnow n bloom hbloom
    have hbefore : s.now < p.2 := Int.lt_trans (Int.lt_succ s.now) hnow
    have hseen := jtiIsRevoked_iff.mp (h p hp hbefore n bloom hbloom)
    exact jtiIsRevoked_iff.mpr ⟨hseen.1, hc p hp hnow ⟨n, isSome_of_eq_some hbloom⟩⟩

theorem kept_setex (h : s.Kept) : (s.setex jti expiresAt).Kept := by
  intro p hp hnow m bloom hbloom
  have hseen := jtiIsRevoked_iff.mp (h p hp hnow m bloom hbloom)
  exact jtiIsRevoked_iff.mpr ⟨hseen.1, keyStands_setex _ (.inr hseen.2)⟩

theorem kept_published_iff (h : s.Kept) (hbloom : s.bloom n = some bloom)
    (hnow : s.now < expiresAt) :
    (s.jtiRevoke n bloom jti expiresAt .ok).Kept ↔ s.Covered (.revoke n jti expiresAt .ok) := by
  constructor
  · intro hk _ _ _ m other hm hother
    have hafter : (s.jtiRevoke n bloom jti expiresAt .ok).bloom m = some other := by
      simp [jtiRevoke, update_of_ne hm, hother]
    exact (jtiIsRevoked_iff.mp (hk (jti, expiresAt) mem_cons_self hnow m _ hafter)).1
  · intro hc p hp
    rcases mem_cons.mp hp with rfl | hp
    · intro _ m after hafter
      refine jtiIsRevoked_iff.mpr ⟨?_, keyStands_setex _ (.inl rfl)⟩
      by_cases hm : m = n
      · obtain rfl : bloomAdd bloom jti = after := by simpa [jtiRevoke, hm] using hafter
        exact bloomMightContain_bloomAdd_self _ _
      · exact hc rfl hnow (by simp [hbloom]) m after hm
          (by simpa [jtiRevoke, update_of_ne hm] using hafter)
    · -- the revocations of before, at the nodes and keys of now
      refine (kept_setex h).update (fun after hafter => ⟨bloom, hbloom, fun other hother => ?_⟩) p
        hp
      cases hafter
      exact bloomMightContain_bloomAdd hother _

theorem kept_step_iff {e : NodeEvent} {s' : Nodes} (h : s.Kept) (hstep : s.step e = some s') :
    s'.Kept ↔ s.Covered e := by
  cases e with
  | start n =>
    cases hstep
    exact kept_start_iff
  | stop n =>
    cases hstep
    exact iff_of_true (h.update nofun) trivial
  | tick =>
    cases hstep
    exact kept_tick_iff h
  | receive n jti =>
    cases hstep
    refine iff_of_true ?_ trivial
    split
    · refine h.update fun after hafter => ?_
      obtain ⟨bloom, hbloom, rfl⟩ := map_eq_some_iff.mp hafter
      exact ⟨bloom, hbloom, fun other hother => bloomMightContain_bloomAdd hother _⟩
    · exact h
  | revoke n jti expiresAt setex =>
    cases hstep
    cases hbloom : s.bloom n with
    | none => exact iff_of_true h fun _ _ hn => by simp [hbloom] at hn
    | some bloom =>
      dsimp only
      split
      · next hpast => exact iff_of_true h fun _ hnow => absurd hnow (Int.not_lt.mpr hpast)
      · next hahead =>
        cases setex with
        | ok => exact kept_published_iff h hbloom (Int.not_le.mp hahead)
        | replyLost => exact iff_of_true (kept_setex h) nofun
        | refused => exact iff_of_true h nofun

/-! ## §4 Histories -/

/-- In every state of a history all nodes see all revocations that returned SSO_OK until they
expire, exactly if each event is covered in the state it meets. -/
theorem revocation_kept_iff (now : Int) (es : List NodeEvent) :
    (∀ before after s, es = before ++ after → run step before (fresh now) = some s → s.Kept) ↔
      Along step Covered es (fresh now) := by
  have hsome : ∀ s e, (step s e).isSome := by
    rintro s (_ | _ | _ | _ | _) <;> rfl
  exact forall_reached_iff_along hsome (fun _ _ _ _ _ => trivial)
    (fun s e s' (_ : True) hk hstep => kept_step_iff hk hstep) trivial nofun

theorem run_ticks (k : Nat) (s : Nodes) :
    run step (replicate k .tick) s = some { s with now := s.now + k } := by
  induction k generalizing s with
  | zero => simp [run]
  | succ k ih =>
    rw [replicate_succ, run, step, bind_some, ih]
    simp only [Nat.cast_succ, Int.add_assoc, Int.add_comm 1]

/-- A second node that has not yet read the message, the same node started again, and a single
node in the last half second before the token expires take a revoked token. -/
theorem revocations_unseen :
    (∃ s, run step [.start 0, .start 1, .revoke 0 (lit "jti") 60000 .ok] (fresh 0) =
      some s ∧ ¬s.Kept) ∧
    (∃ s, run step [.start 0, .revoke 0 (lit "jti") 60000 .ok, .start 0] (fresh 0) =
      some s ∧ ¬s.Kept) ∧
    ∃ s, run step ([.start 0, .revoke 0 (lit "jti") 1500 .ok] ++ replicate 1000 .tick) (fresh 0) =
      some s ∧ ¬s.Kept := by
  refine ⟨⟨_, rfl, fun h => ?_⟩, ⟨_, rfl, fun h => ?_⟩, ?_⟩
  · exact absurd (h _ mem_cons_self (by decide) 1 _ rfl) (by decide +kernel)
  · exact absurd (h _ mem_cons_self (by decide) 0 _ rfl) (by decide +kernel)
  · obtain ⟨s, hs, hlate⟩ : ∃ s, run step [.start 0, .revoke 0 (lit "jti") 1500 .ok] (fresh 0) =
        some s ∧ ¬({ s with now := s.now + 1000 } : Nodes).Kept := by
      refine ⟨_, rfl, fun h => ?_⟩
      exact absurd (h _ mem_cons_self (by decide) 0 _ rfl) (by decide +kernel)
    exact ⟨_, by rw [run_append, hs, bind_some, run_ticks 1000]; rfl, hlate⟩

end Nodes

end SsoSystem.Redis
