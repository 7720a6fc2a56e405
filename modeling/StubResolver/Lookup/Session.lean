import StubResolver.Cache.Basic
import StubResolver.Lookup.Server
import StubResolver.Transport.Basic

/-!
# The world around lookups

What the transports do is given by a function on a state of the world, so a lookup is
a function too. Time is counted from some moment before the first lookup, apart from
the time of the cache.
-/

namespace StubResolver

structure Call where
  /-- Whether the holder of the token triggers it as the query starts. -/
  cancels : Bool
  outcome : Pending Octets

structure Surroundings (σ : Type) where
  query : Protocol → SocketAddress → Octets → Duration → σ → Call × σ
  /-- The time of the cache. -/
  clock : σ → Instant
  /-- The IDs of requests, in the order of their use. -/
  requestId : Nat → UInt16
  /-- The order in which servers are tried when it is not theirs. -/
  shuffle : List NameServer → List NameServer

structure Query where
  server : SocketAddress
  protocol : Protocol
  request : Octets
  deriving DecidableEq

/-- What outlives a lookup. -/
structure Session (σ : Type) where
  world : σ
  cache : Cache
  time : Duration
  idsUsed : Nat
  queries : List Query

def Session.start {σ : Type} (world : σ) (cache : Cache) : Session σ := ⟨world, cache, 0, 0, []⟩

end StubResolver
