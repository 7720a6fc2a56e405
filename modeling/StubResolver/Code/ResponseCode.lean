import StubResolver.Code.Table

/-!
# Operation codes and response codes

The header holds four bits of the response code. An OPT record adds eight bits above
them, which gives a combined code of twelve bits.
-/

namespace StubResolver

structure Opcode where
  code : UInt8
  deriving DecidableEq

namespace Opcode

def table : CodeTable where
  kind := "Opcode"
  generic := "OPCODE"
  entries := [(0, "QUERY"), (1, "IQUERY"), (2, "STATUS"), (4, "NOTIFY"), (5, "UPDATE")]

def text (c : Opcode) : String := table.text c.code.toNat

end Opcode

structure HeaderRcode where
  code : UInt8
  deriving DecidableEq

namespace HeaderRcode

def table : CodeTable where
  kind := "Rcode"
  generic := "RCODE"
  entries :=
    [(0, "NOERROR"), (1, "FORMERR"), (2, "SERVFAIL"), (3, "NXDOMAIN"), (4, "NOTIMP"),
     (5, "REFUSED"), (6, "YXDOMAIN"), (7, "YXRRSET"), (8, "NXRRSET"), (9, "NOTAUTH"),
     (10, "NOTZONE")]

def text (c : HeaderRcode) : String := table.text c.code.toNat

def masked (o : UInt8) : HeaderRcode := ⟨o &&& 0x0F⟩

def isError (c : HeaderRcode) : Bool := c.code != 0

end HeaderRcode

structure ResponseCode where
  code : UInt16
  deriving DecidableEq

namespace ResponseCode

def noError : ResponseCode := ⟨0⟩

def nameError : ResponseCode := ⟨3⟩

def table : CodeTable where
  kind := "OptRcode"
  generic := "RCODE"
  entries :=
    [(0, "NOERROR"), (1, "FORMERR"), (2, "SERVFAIL"), (3, "NXDOMAIN"), (4, "NOTIMP"),
     (5, "REFUSED"), (16, "BADVERS"), (23, "BADCOOKIE")]

def text (c : ResponseCode) : String := table.text c.code.toNat

/-- Puts the OPT record's octet above the four bits of the header. -/
def ofParts (header : HeaderRcode) (extended : UInt8) : ResponseCode :=
  ⟨(extended.toUInt16 <<< 4) ||| header.code.toUInt16⟩

def ofHeader (header : HeaderRcode) : ResponseCode := ⟨header.code.toUInt16⟩

def headerPart (c : ResponseCode) : HeaderRcode := .masked c.code.toUInt8

def extendedPart (c : ResponseCode) : UInt8 := (c.code >>> 4).toUInt8

def isError (c : ResponseCode) : Bool := c != noError

theorem isError_iff {c : ResponseCode} : c.isError = true ↔ c ≠ noError := bne_iff_ne

theorem isError_eq_false_iff {c : ResponseCode} : c.isError = false ↔ c = noError :=
  bne_eq_false_iff_eq

/-- Whether no other server would know better:
success, and the name that does not exist. -/
def isFinal (c : ResponseCode) : Bool := c = noError || c = nameError

end ResponseCode

end StubResolver
