import StubResolver.Address.Ip

/-!
# Reading addresses

A reader takes a beginning of the text and leaves the rest; an address is accepted if
nothing is left. IPv4 addresses have four decimal parts without leading zeros. IPv6
addresses have eight groups of up to four hexadecimal digits, of which `::` may stand
for one or more zero groups, and whose last two may be written as an IPv4 address.
-/

namespace StubResolver.Address

abbrev TextReader (α : Type) := List Char → Option (α × List Char)

def digitOf? (radix : Nat) (c : Char) : Option Nat :=
  let value :=
    if '0' ≤ c ∧ c ≤ '9' then c.toNat - '0'.toNat
    else if 'a' ≤ c ∧ c ≤ 'f' then c.toNat - 'a'.toNat + 10
    else if 'A' ≤ c ∧ c ≤ 'F' then c.toNat - 'A'.toNat + 10
    else radix
  if value < radix then some value else none

structure NumberForm where
  radix : Nat
  maxDigits : Option Nat
  leadingZeros : Bool
  maxValue : Nat

def number (form : NumberForm) : TextReader Nat := fun cs =>
  let digits := cs.takeWhile fun c => (digitOf? form.radix c).isSome
  let value := digits.foldl (fun v c => v * form.radix + (digitOf? form.radix c).getD 0) 0
  let tooMany := match form.maxDigits with
    | some most => decide (most < digits.length)
    | none => false
  let zeroAhead := !form.leadingZeros && digits.head? == some '0' && decide (1 < digits.length)
  if digits.isEmpty || tooMany || zeroAhead || decide (form.maxValue < value) then none
  else some (value, cs.drop digits.length)

def char (c : Char) : TextReader Unit
  | [] => none
  | d :: rest => if d = c then some ((), rest) else none

def separated {α : Type} (separator : Char) (index : Nat) (part : TextReader α) : TextReader α :=
  fun cs =>
    if index = 0 then part cs
    else do
      let ((), rest) ← char separator cs
      part rest

def ip4Part : TextReader Nat := number ⟨10, some 3, false, 255⟩

def ip4 : TextReader Ip4 := fun cs => do
  let (a, cs) ← separated '.' 0 ip4Part cs
  let (b, cs) ← separated '.' 1 ip4Part cs
  let (c, cs) ← separated '.' 2 ip4Part cs
  let (d, cs) ← separated '.' 3 ip4Part cs
  some (⟨#v[a.toUInt8, b.toUInt8, c.toUInt8, d.toUInt8]⟩, cs)

/-- Groups of an IPv6 address, and whether they end in an IPv4 address. -/
structure Groups where
  groups : List Nat
  endsInIp4 : Bool

def ip6Group : TextReader Nat := number ⟨16, some 4, true, 0xFFFF⟩

/-- Reads as many groups as there are, but no more than `room`. -/
def groupsFrom (index : Nat) : Nat → List Char → Groups × List Char
  | 0, cs => (⟨[], false⟩, cs)
  | room + 1, cs =>
    match if room = 0 then none else separated ':' index ip4 cs with
    | some (ip, rest) => (⟨ip.groups.toList, true⟩, rest)
    | none =>
      match separated ':' index ip6Group cs with
      | none => (⟨[], false⟩, cs)
      | some (group, rest) =>
        let (more, rest) := groupsFrom (index + 1) room rest
        (⟨group :: more.groups, more.endsInIp4⟩, rest)

def fillGroups (ahead behind : List Nat) : Vector Nat 8 :=
  let all := ahead ++ List.replicate (8 - (ahead.length + behind.length)) 0 ++ behind
  Vector.ofFn fun i => all.getD i.val 0

def ip6 : TextReader Ip6 := fun cs =>
  let (ahead, rest) := groupsFrom 0 8 cs
  if ahead.groups.length = 8 then some (.ofGroups (fillGroups ahead.groups []), rest)
  else if ahead.endsInIp4 then none
  else do
    let ((), rest) ← char ':' rest
    let ((), rest) ← char ':' rest
    let (behind, rest) := groupsFrom 0 (8 - (ahead.groups.length + 1)) rest
    some (.ofGroups (fillGroups ahead.groups behind.groups), rest)

def whole? {α : Type} (reader : TextReader α) (text : String) : Option α :=
  match reader text.toList with
  | some (value, []) => some value
  | _ => none

def ip : TextReader IpAddress := fun cs =>
  match ip4 cs with
  | some (ip, rest) => some (.v4 ip, rest)
  | none => do
    let (ip, rest) ← ip6 cs
    some (.v6 ip, rest)

end StubResolver.Address

namespace StubResolver

def IpAddress.ofText? (text : String) : Option IpAddress := Address.whole? Address.ip text

def IpAddress.syntaxMessage : String := "invalid IP address syntax"

end StubResolver
