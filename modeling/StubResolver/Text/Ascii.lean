/-!
# ASCII letters and digits among octets

Names compare without regard to the case of ASCII
letters; all other octets stand for themselves.
-/

namespace StubResolver.Text

def isDigit (o : UInt8) : Bool := 0x30 ≤ o && o ≤ 0x39

def digitValue (o : UInt8) : Nat := o.toNat - 0x30

def lowerOctet (o : UInt8) : UInt8 :=
  if 0x41 ≤ o ∧ o ≤ 0x5A then o + 0x20 else o

def lowerOctets (os : List UInt8) : List UInt8 := os.map lowerOctet

def octetsOf (s : String) : List UInt8 := s.toUTF8.toList

def hexDigit (n : Nat) : Char := Nat.digitChar (n % 16)

def hexPair (o : UInt8) : List Char := [hexDigit (o.toNat / 16), hexDigit o.toNat]

def hexText (os : List UInt8) : String := String.ofList (os.flatMap hexPair)

end StubResolver.Text
