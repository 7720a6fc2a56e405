import StubResolver.Code.ResponseCode
import StubResolver.Wire.Composer
import StubResolver.Wire.Reader

/-!
# Message headers

The first twelve octets of a message: its ID, a word of
flags and codes, and the lengths of its four sections.
-/

namespace StubResolver

inductive Flag where
  | response
  | authoritative
  | truncated
  | recursionDesired
  | recursionAvailable
  | reserved
  | authenticData
  | checkingDisabled
  deriving DecidableEq

namespace Flag

def mask : Flag → UInt16
  | response => 0x8000
  | authoritative => 0x0400
  | truncated => 0x0200
  | recursionDesired => 0x0100
  | recursionAvailable => 0x0080
  | reserved => 0x0040
  | authenticData => 0x0020
  | checkingDisabled => 0x0010

def text : Flag → String
  | response => "QR"
  | authoritative => "AA"
  | truncated => "TC"
  | recursionDesired => "RD"
  | recursionAvailable => "RA"
  | reserved => "Z"
  | authenticData => "AD"
  | checkingDisabled => "CD"

def listed : List Flag :=
  [response, authoritative, truncated, recursionDesired, recursionAvailable, authenticData,
   checkingDisabled]

end Flag

structure Header where
  id : UInt16
  bits : UInt16
  deriving DecidableEq

namespace Header

def empty : Header := ⟨0, 0⟩

def setId (h : Header) (id : UInt16) : Header := { h with id }

def flag (h : Header) (f : Flag) : Bool := h.bits &&& f.mask != 0

def setFlag (h : Header) (f : Flag) (on : Bool) : Header :=
  { h with bits := if on then h.bits ||| f.mask else h.bits &&& ~~~f.mask }

def opcodeMask : UInt16 := 0x7800

def rcodeMask : UInt16 := 0x000F

def opcode (h : Header) : Opcode := ⟨((h.bits >>> 11) &&& 0x0F).toUInt8⟩

/-- Sets the operation code, of which only the lower four bits count. -/
def setOpcode (h : Header) (c : Opcode) : Header :=
  { h with bits := (h.bits &&& ~~~opcodeMask) ||| ((c.code &&& 0x0F).toUInt16 <<< 11) }

def rcode (h : Header) : HeaderRcode := .masked h.bits.toUInt8

/-- Sets the response code, of which only the lower four bits count. -/
def setRcode (h : Header) (c : HeaderRcode) : Header :=
  { h with bits := (h.bits &&& ~~~rcodeMask) ||| (c.code &&& 0x0F).toUInt16 }

def flagsText (h : Header) : String :=
  " ".intercalate ((Flag.listed.filter h.flag).map Flag.text)

def read : Reader Header := do
  let id ← Reader.u16
  let bits ← Reader.u16
  return ⟨id, bits⟩

def write (h : Header) : Writer := do
  Writer.u16 h.id
  Writer.u16 h.bits

end Header

structure SectionCounts where
  question : UInt16
  answer : UInt16
  authority : UInt16
  additional : UInt16
  deriving DecidableEq

namespace SectionCounts

def read : Reader SectionCounts := do
  let question ← Reader.u16
  let answer ← Reader.u16
  let authority ← Reader.u16
  let additional ← Reader.u16
  return ⟨question, answer, authority, additional⟩

def write (c : SectionCounts) : Writer := do
  Writer.u16 c.question
  Writer.u16 c.answer
  Writer.u16 c.authority
  Writer.u16 c.additional

end SectionCounts

def headerLength : Nat := 12

end StubResolver
