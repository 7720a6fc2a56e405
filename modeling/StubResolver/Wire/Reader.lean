import StubResolver.Address.Ip
import StubResolver.Text.Lossy
import StubResolver.Wire.Error
import StubResolver.Wire.Octets

/-!
# Reading a message

A reader has the whole message at hand and a position in it, so that it can follow
pointers to anywhere. Reads that do not have enough octets ahead fail and stay where
they are; a sequence of reads that fails stays where its failing part did.
-/

namespace StubResolver

/-- Reads at a position of a message and moves it. -/
abbrev Reader (α : Type) := ReaderT Octets (EStateM ParseError Nat) α

namespace Reader

def runAt {α : Type} (reader : Reader α) (octets : Octets) (pos : Nat) :
    Except ParseError α × Nat :=
  match reader octets pos with
  | .ok value pos => (.ok value, pos)
  | .error e pos => (.error e, pos)

def position : Reader Nat := fun _ pos => .ok pos pos

def fail {α : Type} (e : ParseError) : Reader α := fun _ pos => .error e pos

def seek (target : Nat) : Reader Unit := fun m pos =>
  if target ≤ m.size then .ok () target else .error .shortInput pos

def require (count : Nat) : Reader Unit := fun m pos =>
  if pos + count ≤ m.size then .ok () pos else .error .shortInput pos

def skip (count : Nat) : Reader Unit := fun m pos =>
  if pos + count ≤ m.size then .ok () (pos + count) else .error .shortInput pos

def fixed (count : Nat) : Reader (Vector UInt8 count) := fun m pos =>
  if h : pos + count ≤ m.size then .ok (Vector.ofFn fun i => m[pos + i.val]) (pos + count)
  else .error .shortInput pos

def take (count : Nat) : Reader (List UInt8) := fun m pos =>
  if pos + count ≤ m.size then .ok (m.extract pos (pos + count)).toList (pos + count)
  else .error .shortInput pos

def u8 : Reader UInt8 := do
  let v ← fixed 1
  return v[0]

def u16 : Reader UInt16 := do
  let v ← fixed 2
  return Wire.join16 v[0] v[1]

def u32 : Reader UInt32 := do
  let v ← fixed 4
  return Wire.join32 v[0] v[1] v[2] v[3]

def u16LittleEndian : Reader UInt16 := do
  let v ← fixed 2
  return Wire.join16 v[1] v[0]

def u32LittleEndian : Reader UInt32 := do
  let v ← fixed 4
  return Wire.join32 v[3] v[2] v[1] v[0]

def i32 : Reader Int32 := do
  let v ← u32
  return v.toInt32

def ip4 : Reader Ip4 := do
  let v ← fixed 4
  return ⟨v⟩

def ip6 : Reader Ip6 := do
  let v ← fixed 16
  return ⟨v⟩

def textOfLength (count : Nat) : Reader String := do
  let octets ← take count
  return Text.lossy octets

/-- Takes a text behind its length in one octet. -/
def text : Reader String := do
  let count ← u8
  textOfLength count.toNat

/-- Reads so many values in a row; those read so far, last first, go in `done`. -/
def repeatFrom {α : Type} (reader : Reader α) (done : List α) : Nat → Reader (List α)
  | 0 => return done.reverse
  | count + 1 => do
    let value ← reader
    repeatFrom reader (value :: done) count

def repeated {α : Type} (count : Nat) (reader : Reader α) : Reader (List α) :=
  repeatFrom reader [] count

end Reader

end StubResolver
