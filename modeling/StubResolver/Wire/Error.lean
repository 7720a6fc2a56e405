import StubResolver.Code.RecordType

/-!
# What can go wrong on the wire
-/

namespace StubResolver

inductive NameFault where
  | tooManyPointers
  | pointerLoop
  | labelType
  | other (reason : String)
  deriving DecidableEq

def NameFault.text : NameFault → String
  | .tooManyPointers => "too many compression pointers"
  | .pointerLoop => "compression pointer loop"
  | .labelType => "invalid label type"
  | .other reason => reason

inductive ParseError where
  /-- The octets end too early. -/
  | shortInput
  | malformedName (fault : NameFault)
  /-- A decoder of record data did not take exactly the octets of the record. -/
  | desync (type : RecordType) (expected : UInt16) (consumed : UInt64)
  /-- Record data does not have the form of its type. -/
  | form (reason : String)
  deriving DecidableEq

def ParseError.message : ParseError → String
  | .shortInput => "unexpected end of input"
  | .malformedName fault => "malformed domain name: " ++ fault.text
  | .desync type expected consumed =>
    "decoder for " ++ type.text ++ " consumed " ++ toString consumed.toNat ++ " octets instead of "
      ++ toString expected.toNat
  | .form reason => reason

inductive ComposeError where
  | shortBuffer
  | longLabel
  | emptyLabel
  | longName
  deriving DecidableEq

def ComposeError.message : ComposeError → String
  | .shortBuffer => "buffer size exceeded"
  | .longLabel => "label too long"
  | .emptyLabel => "empty label"
  | .longName => "domain name too long"

end StubResolver
