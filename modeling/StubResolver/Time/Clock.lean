/-!
# Durations and a clock that is moved by hand

Durations and instants are counted in nanoseconds. The clock starts at zero and stops
at the longest time that 64 bits of seconds can tell.
-/

namespace StubResolver

abbrev Duration := Nat

namespace Duration

def ofNanos (n : Nat) : Duration := n

def ofMillis (n : Nat) : Duration := n * 1000000

def ofSeconds (n : Nat) : Duration := n * 1000000000

def seconds (d : Duration) : Nat := d / 1000000000

def millis (d : Duration) : Nat := d / 1000000

def subsecondNanos (d : Duration) : Nat := d % 1000000000

/-- Seconds that 64 bits hold, and one nanosecond short of another. -/
def longest : Duration := ofSeconds 0xFFFFFFFFFFFFFFFF + 999999999

end Duration

/-- The time since the clock was started. -/
abbrev Instant := Duration

structure Clock where
  now : Instant

namespace Clock

def start : Clock := ⟨0⟩

def advance (c : Clock) (d : Duration) : Clock := ⟨min (c.now + d) Duration.longest⟩

theorem advance_le_longest (c : Clock) (d : Duration) : (c.advance d).now ≤ Duration.longest :=
  Nat.min_le_right _ _

theorem now_le_advance {c : Clock} (h : c.now ≤ Duration.longest) (d : Duration) :
    c.now ≤ (c.advance d).now :=
  Nat.le_min.2 ⟨Nat.le_add_right _ _, h⟩

end Clock

end StubResolver
