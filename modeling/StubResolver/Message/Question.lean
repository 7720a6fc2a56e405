import StubResolver.Name.Wire
import StubResolver.Wire.Composer

/-!
# Questions
-/

namespace StubResolver

def RecordType.read : Reader RecordType := do
  let code ← Reader.u16
  return ⟨code⟩

def RecordType.write (t : RecordType) : Writer := Writer.u16 t.code

def RecordClass.read : Reader RecordClass := do
  let code ← Reader.u16
  return ⟨code⟩

def RecordClass.write (c : RecordClass) : Writer := Writer.u16 c.code

structure Question where
  name : Name
  type : RecordType
  recordClass : RecordClass
  deriving DecidableEq

namespace Question

def caseFold (q : Question) : Question := { q with name := q.name.caseFold }

def same (a b : Question) : Bool := a.caseFold = b.caseFold

def text (q : Question) : String :=
  q.name.text ++ " " ++ q.recordClass.text ++ " " ++ q.type.text

def read : Reader Question := do
  let name ← Name.read
  let type ← RecordType.read
  let recordClass ← RecordClass.read
  return ⟨name, type, recordClass⟩

def write (q : Question) : Writer := do
  q.name.write
  q.type.write
  q.recordClass.write

end Question

end StubResolver
