import StubResolver.Message.Header
import StubResolver.Record.Registry

/-!
# Messages

A message is read as a whole: its header, and then exactly as many questions and
records as the header announces. What may stand behind them is left unread but counts
for the size.
-/

namespace StubResolver

structure Message where
  header : Header
  counts : SectionCounts
  question : List Question
  answer : List Record
  authority : List Record
  additional : List Record
  size : Nat
  deriving DecidableEq

namespace Message

/-- Takes a message; `size` is the number of its octets. -/
def read (registry : Registry) (size : Nat) : Reader Message := do
  let header ← Header.read
  let counts ← SectionCounts.read
  let question ← Reader.repeated counts.question.toNat Question.read
  let answer ← Reader.repeated counts.answer.toNat registry.readRecord
  let authority ← Reader.repeated counts.authority.toNat registry.readRecord
  let additional ← Reader.repeated counts.additional.toNat registry.readRecord
  return ⟨header, counts, question, answer, authority, additional, size⟩

def ofOctets (registry : Registry) (octets : Octets) : Except ParseError Message :=
  ((read registry octets.size).runAt octets 0).1

def id (m : Message) : UInt16 := m.header.id

def firstQuestion? (m : Message) : Option Question := m.question.head?

def isTruncated (m : Message) : Bool := m.header.flag .truncated

def allRecords (m : Message) : List Record := m.answer ++ m.authority ++ m.additional

def records (m : Message) : List Record := m.allRecords.filter fun r => !r.data.isOpt

def opt? (m : Message) : Option Opt := m.additional.findSome? fun r => r.data.opt?

def responseCode (m : Message) : ResponseCode :=
  match m.opt? with
  | some opt => opt.responseCode m.header.rcode
  | none => .ofHeader m.header.rcode

def hasError (m : Message) : Bool := m.responseCode.isError

def minTtl? (m : Message) : Option Int := (m.records.map fun r => r.ttl.toInt).min?

def ageRecord (seconds : UInt32) (r : Record) : Record :=
  if r.data.isOpt then r else r.aged seconds

def aged (m : Message) (seconds : UInt32) : Message :=
  { m with
    answer := m.answer.map (ageRecord seconds)
    authority := m.authority.map (ageRecord seconds)
    additional := m.additional.map (ageRecord seconds) }

def caseFold (m : Message) : Message :=
  { m with
    question := m.question.map Question.caseFold
    answer := m.answer.map Record.caseFold
    authority := m.authority.map Record.caseFold
    additional := m.additional.map Record.caseFold }

def same (a b : Message) : Bool := a.caseFold = b.caseFold

end Message

end StubResolver
