import StubResolver.Message.Question

/-!
# Record headers

What all records have in common: owner, type, class, time to live in seconds, and the
length of the data that follows. The time to live is read as a signed number.
-/

namespace StubResolver

structure RecordHeader where
  owner : Name
  type : RecordType
  recordClass : RecordClass
  ttl : Int32
  dataLength : UInt16
  deriving DecidableEq

namespace RecordHeader

def caseFold (h : RecordHeader) : RecordHeader := { h with owner := h.owner.caseFold }

def read : Reader RecordHeader := do
  let owner ← Name.read
  let type ← RecordType.read
  let recordClass ← RecordClass.read
  let ttl ← Reader.i32
  let dataLength ← Reader.u16
  return ⟨owner, type, recordClass, ttl, dataLength⟩

end RecordHeader

end StubResolver
