import StubResolver.Record.Data

/-!
# Records
-/

namespace StubResolver

structure Record where
  header : RecordHeader
  data : RecordData
  deriving DecidableEq

namespace Record

def caseFold (r : Record) : Record := ⟨r.header.caseFold, r.data.caseFold⟩

def ttl (r : Record) : Int32 := r.header.ttl

/-- Lowers the time to live by whole seconds, but not below zero. The seconds are
made a signed number first, and neither they nor the difference go beyond the ends of
its range. -/
def aged (r : Record) (seconds : UInt32) : Record :=
  let signed := Int32.ofIntClamp seconds.toNat
  let lowered := Int32.ofIntClamp (r.header.ttl.toInt - signed.toInt)
  { r with header := { r.header with ttl := max lowered 0 } }

def text (r : Record) : String :=
  " ".intercalate
    [r.header.owner.text, toString r.header.ttl.toInt, r.header.recordClass.text,
     r.header.type.text, r.data.text]

end Record

end StubResolver
