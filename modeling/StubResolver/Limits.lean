/-!
# Limited settings

A setting has a value that it starts with and a range that new values are moved into.
-/

namespace StubResolver

structure Limits (α : Type) where
  default : α
  low : α
  high : α

/-- Moves a value into the range; the lower end wins if the range is empty. -/
def Limits.limit {α : Type} [Min α] [Max α] (l : Limits α) (value : α) : α :=
  max l.low (min l.high value)

end StubResolver
