import StubResolver.Message.Header
import StubResolver.Time.Clock
import StubResolver.Transport.Error

/-!
# What UDP and TCP have in common

A query to a server ends after some time, or never; a time limit or a token that is
triggered ends it earlier. A response is taken for that to a request if it is at
least a header long and has the same ID.
-/

namespace StubResolver

inductive Protocol where
  | udp
  | tcp
  deriving DecidableEq

def Protocol.text : Protocol → String
  | udp => "UDP"
  | tcp => "TCP"

def messageId? (octets : Octets) : Option UInt16 :=
  match octets[0]?, octets[1]? with
  | some high, some low => some (Wire.join16 high low)
  | _, _ => none

def checkResponse (request response : Octets) : Except ClientError Octets :=
  if response.size < headerLength then .error .shortMessage
  else
    match messageId? request, messageId? response with
    | some expected, some received =>
      if expected = received then .ok response else .error (.idMismatch expected received)
    | _, _ => .error .shortMessage

/-- A result that is there after some time, or never. -/
structure Pending (α : Type) where
  ready : Option Duration
  result : Except ClientError α

namespace Pending

def now {α : Type} (result : Except ClientError α) : Pending α := ⟨some 0, result⟩

def never {α : Type} : Pending α := ⟨none, .error .timeout⟩

def within {α : Type} (limit : Duration) (p : Pending α) : Pending α :=
  match p.ready with
  | some time => if time ≤ limit then p else ⟨some limit, .error .timeout⟩
  | none => ⟨some limit, .error .timeout⟩

/-- Gives up once a token is triggered, which is after `token` if at all. A token
that was triggered before goes first. -/
def unlessCanceled {α : Type} (token : Option Duration) (p : Pending α) : Pending α :=
  match token with
  | none => p
  | some trigger =>
    match p.ready with
    | some time => if trigger ≤ time then ⟨some trigger, .error .canceled⟩ else p
    | none => ⟨some trigger, .error .canceled⟩

end Pending

end StubResolver
