import StubResolver.Message.Basic

/-!
# Requests

A request asks one question and carries one OPT record in its additional section.
-/

namespace StubResolver

structure Request where
  header : Header
  question : Question
  opt : Opt
  deriving DecidableEq

namespace Request

def ofQuestion (question : Question) (recursionDesired : Bool) (payloadSize : UInt16) :
    Request where
  header := Header.empty.setFlag .recursionDesired recursionDesired
  question := question
  opt := .ofRequest payloadSize false

def setId (r : Request) (id : UInt16) : Request := { r with header := r.header.setId id }

def setDnssecOk (r : Request) (dnssecOk : Bool) : Request :=
  { r with opt := .ofRequest r.opt.payloadSize dnssecOk }

def counts : SectionCounts := ⟨1, 0, 0, 1⟩

def write (r : Request) : Writer := do
  r.header.write
  counts.write
  r.question.write
  r.opt.write

def toOctets (r : Request) : Except ComposeError Octets :=
  r.write.toOctets Composer.requestCapacity

end Request

end StubResolver
