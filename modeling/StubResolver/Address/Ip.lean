import StubResolver.Text.Ascii

/-!
# Internet addresses

An address is its octets. IPv6 addresses are shown with their longest run of at least
two zero groups as `::`, the first such run if several are equally long; the range
that embeds IPv4 addresses ends in the dotted form.
-/

namespace StubResolver

structure Ip4 where
  octets : Vector UInt8 4
  deriving DecidableEq

structure Ip6 where
  octets : Vector UInt8 16
  deriving DecidableEq

inductive IpAddress where
  | v4 (ip : Ip4)
  | v6 (ip : Ip6)
  deriving DecidableEq

namespace Ip4

def chars (ip : Ip4) : List Char :=
  ['.'].intercalate (ip.octets.toList.map fun o => Nat.toDigits 10 o.toNat)

def text (ip : Ip4) : String := String.ofList ip.chars

/-- The two groups of 16 bits that the address takes within an IPv6 address. -/
def groups (ip : Ip4) : Vector Nat 2 :=
  Vector.ofFn fun i => ip.octets[2 * i.val].toNat * 256 + ip.octets[2 * i.val + 1].toNat

end Ip4

namespace Ip6

def groups (ip : Ip6) : Vector Nat 8 :=
  Vector.ofFn fun i => ip.octets[2 * i.val].toNat * 256 + ip.octets[2 * i.val + 1].toNat

def ofGroups (groups : Vector Nat 8) : Ip6 where
  octets := Vector.ofFn fun i =>
    let group := groups[i.val / 2]
    if i.val % 2 = 0 then (group / 256).toUInt8 else group.toUInt8

def leadingZeros (groups : List Nat) : Nat := (groups.takeWhile (· == 0)).length

/-- The start and length of the longest run of
zeros, the first one if several are as long. -/
def longestZeroRun (groups : List Nat) : Nat × Nat :=
  (List.range groups.length).foldl
    (fun best i =>
      let length := leadingZeros (groups.drop i)
      if best.2 < length then (i, length) else best)
    (0, 0)

def groupsChars (groups : List Nat) : List Char :=
  [':'].intercalate (groups.map (Nat.toDigits 16))

/-- The IPv4 address that an address of the range `::ffff:0:0/96` stands for. -/
def embedded? (ip : Ip6) : Option Ip4 :=
  if ip.groups.toList.take 6 = [0, 0, 0, 0, 0, 0xFFFF] then
    some ⟨Vector.ofFn fun i : Fin 4 => ip.octets[12 + i.val]⟩
  else none

def chars (ip : Ip6) : List Char :=
  match ip.embedded? with
  | some ip4 => [':', ':', 'f', 'f', 'f', 'f', ':'] ++ ip4.chars
  | none =>
    let groups := ip.groups.toList
    let (start, length) := longestZeroRun groups
    if 1 < length then
      groupsChars (groups.take start) ++ [':', ':'] ++ groupsChars (groups.drop (start + length))
    else groupsChars groups

def text (ip : Ip6) : String := String.ofList ip.chars

end Ip6

namespace IpAddress

def text : IpAddress → String
  | v4 ip => ip.text
  | v6 ip => ip.text

def isV4 : IpAddress → Bool
  | v4 _ => true
  | v6 _ => false

end IpAddress

end StubResolver
