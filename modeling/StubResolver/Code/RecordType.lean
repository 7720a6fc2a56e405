import StubResolver.Code.Table

/-!
# Record types and classes
-/

namespace StubResolver

structure RecordType where
  code : UInt16
  deriving DecidableEq

namespace RecordType

def a : RecordType := ⟨1⟩
def ns : RecordType := ⟨2⟩
def cname : RecordType := ⟨5⟩
def soa : RecordType := ⟨6⟩
def ptr : RecordType := ⟨12⟩
def mx : RecordType := ⟨15⟩
def txt : RecordType := ⟨16⟩
def aaaa : RecordType := ⟨28⟩
def opt : RecordType := ⟨41⟩
def axfr : RecordType := ⟨252⟩
def any : RecordType := ⟨255⟩

def table : CodeTable where
  kind := "Rtype"
  generic := "TYPE"
  entries :=
    [(1, "A"), (2, "NS"), (5, "CNAME"), (6, "SOA"), (7, "MB"), (8, "MG"), (9, "MR"), (10, "NULL"),
     (11, "WKS"), (12, "PTR"), (13, "HINFO"), (14, "MINFO"), (15, "MX"), (16, "TXT"), (17, "RP"),
     (18, "AFSDB"), (28, "AAAA"), (33, "SRV"), (35, "NAPTR"), (37, "CERT"), (41, "OPT"), (43, "DS"),
     (44, "SSHFP"), (46, "RRSIG"), (47, "NSEC"), (48, "DNSKEY"), (50, "NSEC3"), (51, "NSEC3PARAM"),
     (52, "TLSA"), (99, "SPF"), (252, "AXFR"), (255, "ANY"), (256, "URI"), (257, "CAA")]

def text (t : RecordType) : String := table.text t.code.toNat

def debugText (t : RecordType) : String := table.debugText t.code.toNat

def isQuestionOnly (t : RecordType) : Bool := t = axfr || t = any

end RecordType

structure RecordClass where
  code : UInt16
  deriving DecidableEq

namespace RecordClass

def internet : RecordClass := ⟨1⟩

def table : CodeTable where
  kind := "Class"
  generic := "CLASS"
  entries := [(1, "IN"), (3, "CH"), (4, "HS"), (254, "NONE"), (255, "*")]

def text (c : RecordClass) : String := table.text c.code.toNat

end RecordClass

end StubResolver
