import StubResolver.Name.Basic
import StubResolver.Wire.Octets

/-!
# Writing a message

A composer holds the octets written so far and never more than its capacity. A write
that would take it beyond that fails and changes nothing; a sequence of writes that
fails keeps the octets of the parts before the one that failed.
-/

namespace StubResolver

structure Composer where
  capacity : Nat
  octets : Octets

def Composer.requestCapacity : Nat := 1024

def Composer.empty (capacity : Nat) : Composer := ⟨capacity, #[]⟩

def Composer.modifyAt (c : Composer) (index : Nat) (f : UInt8 → UInt8) : Composer :=
  { c with octets := c.octets.modify index f }

abbrev Writer := EStateM ComposeError Composer Unit

namespace Writer

def octets (slice : List UInt8) : Writer := fun c =>
  if c.octets.size + slice.length ≤ c.capacity then .ok () { c with octets := c.octets ++ slice }
  else .error .shortBuffer c

def fail (e : ComposeError) : Writer := fun c => .error e c

def u8 (v : UInt8) : Writer := octets [v]

def u16 (v : UInt16) : Writer := octets (Wire.octets16 v)

def u32 (v : UInt32) : Writer := octets (Wire.octets32 v)

/-- The wire form of labels: each behind its length, then the root label. -/
def labelOctets (ls : List Label) : List UInt8 :=
  ls.flatMap (fun l => l.length.toUInt8 :: l) ++ [0]

/-- Writes labels all at once, or nothing. -/
def labels (ls : List Label) : Writer :=
  match Name.labelsError? ls with
  | some e => fail e
  | none => octets (labelOctets ls)

def cutAt (separator : UInt8) : List UInt8 → List Label
  | [] => [[]]
  | o :: rest =>
    if o = separator then [] :: cutAt separator rest
    else
      match cutAt separator rest with
      | [] => [[o]]
      | l :: ls => (o :: l) :: ls

/-- The labels of a host name without escape sequences; one dot may end it. -/
def hostLabels (name : String) : List Label :=
  let dot : UInt8 := 0x2E
  let os := Text.octetsOf name
  if os = [] ∨ os = [dot] then []
  else cutAt dot (if os.getLast? = some dot then os.dropLast else os)

def hostName (name : String) : Writer := labels (hostLabels name)

def runOn (w : Writer) (c : Composer) : Except ComposeError Unit × Composer :=
  match w c with
  | .ok () c => (.ok (), c)
  | .error e c => (.error e, c)

def toOctets (w : Writer) (capacity : Nat) : Except ComposeError Octets :=
  match w.runOn (Composer.empty capacity) with
  | (.ok (), c) => .ok c.octets
  | (.error e, _) => .error e

end Writer

def Name.write (n : Name) : Writer := Writer.labels n.labels

end StubResolver
