import StubResolver.Address.Socket

/-!
# Name servers
-/

namespace StubResolver

structure NameServer where
  address : SocketAddress
  prefersTcp : Bool
  deriving DecidableEq

namespace NameServer

def defaultPort : UInt16 := 53

def ofAddress (address : SocketAddress) : NameServer := ⟨address, false⟩

def ofIp (ip : IpAddress) : NameServer := ofAddress (.ofIp ip defaultPort)

def withPrefersTcp (s : NameServer) (prefersTcp : Bool) : NameServer := { s with prefersTcp }

def ofText? (text : String) : Option NameServer :=
  match SocketAddress.ofText? text with
  | some address => some (ofAddress address)
  | none => (IpAddress.ofText? text).map ofIp

def text (s : NameServer) : String := s.address.text

end NameServer

end StubResolver
