/-!
# Reading octets as text

Octets are read as UTF-8. What is not UTF-8 is replaced by U+FFFD: a character that
breaks off gives one replacement for the octets it got to, and an octet that can
neither begin nor continue a character gives one of its own. The ranges of the second
octet rule out overlong forms, surrogates, and everything above U+10FFFF.
-/

namespace StubResolver.Text

/-- A character that has begun: the value so far,
the octets owed, and the range of the next one. -/
structure Begun where
  value : Nat
  owed : Nat
  low : UInt8
  high : UInt8

inductive Reading where
  | complete (c : Char)
  | begun (b : Begun)
  | invalid

def replacement : Char := '\uFFFD'

def Reading.first (o : UInt8) : Reading :=
  if o < 0x80 then .complete (Char.ofNat o.toNat)
  else if o < 0xC2 then .invalid
  else if o < 0xE0 then .begun ⟨o.toNat - 0xC0, 1, 0x80, 0xBF⟩
  else if o < 0xF0 then
    .begun ⟨o.toNat - 0xE0, 2, if o = 0xE0 then 0xA0 else 0x80, if o = 0xED then 0x9F else 0xBF⟩
  else if o < 0xF5 then
    .begun ⟨o.toNat - 0xF0, 3, if o = 0xF0 then 0x90 else 0x80, if o = 0xF4 then 0x8F else 0xBF⟩
  else .invalid

def Begun.next (b : Begun) (o : UInt8) : Reading :=
  if b.low ≤ o ∧ o ≤ b.high then
    let value := b.value * 64 + (o.toNat - 0x80)
    if b.owed ≤ 1 then .complete (Char.ofNat value) else .begun ⟨value, b.owed - 1, 0x80, 0xBF⟩
  else .invalid

/-- The characters read so far, last first, go in `done`. -/
def lossyFrom (done : List Char) : Option Begun → List UInt8 → List Char
  | none, [] => done.reverse
  | some _, [] => (replacement :: done).reverse
  | none, o :: rest =>
    match Reading.first o with
    | .complete c => lossyFrom (c :: done) none rest
    | .begun b => lossyFrom done (some b) rest
    | .invalid => lossyFrom (replacement :: done) none rest
  | some b, o :: rest =>
    match b.next o with
    | .complete c => lossyFrom (c :: done) none rest
    | .begun b => lossyFrom done (some b) rest
    | .invalid =>
      match Reading.first o with
      | .complete c => lossyFrom (c :: replacement :: done) none rest
      | .begun b => lossyFrom (replacement :: done) (some b) rest
      | .invalid => lossyFrom (replacement :: replacement :: done) none rest

def lossyChars (octets : List UInt8) : List Char := lossyFrom [] none octets

def lossy (octets : List UInt8) : String := String.ofList (lossyChars octets)

end StubResolver.Text
