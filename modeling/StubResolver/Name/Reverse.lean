import StubResolver.Address.Ip
import StubResolver.Name.Basic

/-!
# Names for reverse lookups

An address has a name that its own parts spell backwards: the octets of an IPv4
address in decimal below `in-addr.arpa`, the half octets of an IPv6 address in
hexadecimal below `ip6.arpa`.
-/

namespace StubResolver.Name

def asciiLabel (cs : List Char) : Label := cs.map fun c => c.toNat.toUInt8

def decimalLabel (o : UInt8) : Label := asciiLabel (Nat.toDigits 10 o.toNat)

def nibbleLabels (o : UInt8) : List Label :=
  [asciiLabel [Text.hexDigit o.toNat], asciiLabel [Text.hexDigit (o.toNat / 16)]]

def arpa : Label := asciiLabel ['a', 'r', 'p', 'a']

def inAddr : Label := asciiLabel ['i', 'n', '-', 'a', 'd', 'd', 'r']

def ip6Label : Label := asciiLabel ['i', 'p', '6']

def reverse : IpAddress → Name
  | .v4 ip => ⟨ip.octets.toList.reverse.map decimalLabel ++ [inAddr, arpa]⟩
  | .v6 ip => ⟨ip.octets.toList.reverse.flatMap nibbleLabels ++ [ip6Label, arpa]⟩

end StubResolver.Name
