import StubResolver.Time.Clock

/-!
# Tokens

A token ends a lookup from outside. Only one that somebody holds is ever triggered.
-/

namespace StubResolver

inductive Token where
  | unheld
  /-- A token that is triggered at the given time
  if at all, unless a query triggers it before. -/
  | held (trigger : Option Duration)
  deriving DecidableEq

namespace Token

def time? : Token → Option Duration
  | unheld => none
  | held trigger => trigger

def triggerAt (t : Token) (time : Duration) : Token :=
  match t with
  | unheld => unheld
  | held _ => held (some time)

def isTriggered (t : Token) (time : Duration) : Bool :=
  match t.time? with
  | some trigger => trigger ≤ time
  | none => false

end Token

end StubResolver
