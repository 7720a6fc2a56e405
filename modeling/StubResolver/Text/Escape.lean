import StubResolver.Text.Ascii

/-!
# Presentation format

Octets are shown as printable ASCII. A semicolon, backslash or double quote is
preceded by a backslash; an octet outside of printable ASCII becomes a backslash and
three decimal digits.
-/

namespace StubResolver.Text

def threeDigits (n : Nat) : List Char :=
  [Nat.digitChar (n / 100 % 10), Nat.digitChar (n / 10 % 10), Nat.digitChar (n % 10)]

def escapeOctet (o : UInt8) : List Char :=
  let c := Char.ofNat o.toNat
  if c = ';' ∨ c = '\\' ∨ c = '"' then ['\\', c]
  else if 32 ≤ o ∧ o ≤ 126 then [c]
  else '\\' :: threeDigits o.toNat

def escapeChars (octets : List UInt8) : List Char := octets.flatMap escapeOctet

def escape (octets : List UInt8) : String := String.ofList (escapeChars octets)

end StubResolver.Text
