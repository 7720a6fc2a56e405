import StubResolver.Limits
import StubResolver.Time.Clock

/-!
# Cache settings
-/

namespace StubResolver

inductive MinimumTtl where
  | duration (d : Duration)
  | infinite
  deriving DecidableEq

structure CacheConfig where
  maxEntries : Nat
  minimumTtl : Option MinimumTtl
  sweepInterval : Duration
  deriving DecidableEq

namespace CacheConfig

def maxEntriesLimits : Limits Nat := ⟨1000, 1, 1000000000⟩

def sweepIntervalLimits : Limits Duration :=
  ⟨.ofSeconds 600, .ofSeconds 1, .ofSeconds (7 * 24 * 3600)⟩

def default : CacheConfig where
  maxEntries := maxEntriesLimits.default
  minimumTtl := none
  sweepInterval := sweepIntervalLimits.default

def setMaxEntries (c : CacheConfig) (n : Nat) : CacheConfig :=
  { c with maxEntries := maxEntriesLimits.limit n }

def setMinimumTtl (c : CacheConfig) (ttl : Option MinimumTtl) : CacheConfig :=
  { c with minimumTtl := ttl }

def setSweepInterval (c : CacheConfig) (d : Duration) : CacheConfig :=
  { c with sweepInterval := sweepIntervalLimits.limit d }

end CacheConfig

end StubResolver
