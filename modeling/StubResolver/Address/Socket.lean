import StubResolver.Address.Reader

/-!
# Socket addresses

An address with a port: `192.0.2.1:53` or `[2001:db8::1]:53`, where an IPv6 address
may carry the number of a zone, as in `[fe80::1%2]:53`.
-/

namespace StubResolver

inductive SocketAddress where
  | v4 (ip : Ip4) (port : UInt16)
  | v6 (ip : Ip6) (port : UInt16) (zone : UInt32)
  deriving DecidableEq

namespace SocketAddress

def ofIp (ip : IpAddress) (port : UInt16) : SocketAddress :=
  match ip with
  | .v4 ip => v4 ip port
  | .v6 ip => v6 ip port 0

def ip : SocketAddress → IpAddress
  | v4 ip _ => .v4 ip
  | v6 ip _ _ => .v6 ip

def port : SocketAddress → UInt16
  | v4 _ port => port
  | v6 _ port _ => port

def isV4 (address : SocketAddress) : Bool := address.ip.isV4

def text : SocketAddress → String
  | v4 ip port => ip.text ++ ":" ++ toString port.toNat
  | v6 ip port zone =>
    let zoneText := if zone = 0 then "" else "%" ++ toString zone.toNat
    "[" ++ ip.text ++ zoneText ++ "]:" ++ toString port.toNat

open Address

def portReader : TextReader UInt16 := fun cs => do
  let ((), cs) ← char ':' cs
  let (port, cs) ← number ⟨10, none, true, 0xFFFF⟩ cs
  some (port.toUInt16, cs)

/-- The number of a zone if there is one, else zero and nothing taken. -/
def zoneReader : TextReader UInt32 := fun cs =>
  match (do
    let ((), cs) ← char '%' cs
    number ⟨10, none, true, 0xFFFFFFFF⟩ cs) with
  | some (zone, rest) => some (zone.toUInt32, rest)
  | none => some (0, cs)

def v4Reader : TextReader SocketAddress := fun cs => do
  let (ip, cs) ← ip4 cs
  let (port, cs) ← portReader cs
  some (v4 ip port, cs)

def v6Reader : TextReader SocketAddress := fun cs => do
  let ((), cs) ← char '[' cs
  let (ip, cs) ← ip6 cs
  let (zone, cs) ← zoneReader cs
  let ((), cs) ← char ']' cs
  let (port, cs) ← portReader cs
  some (v6 ip port zone, cs)

def ofText? (text : String) : Option SocketAddress :=
  whole? (fun cs => v4Reader cs <|> v6Reader cs) text

end SocketAddress

end StubResolver
