import StubResolver.Simulation.Script
import StubResolver.Transport.Tcp
import StubResolver.Transport.Udp

/-!
# A server on the local host

One server takes datagrams and connections on the same port and answers by script.
The link to it may be down: then sockets can be bound, but nothing can be sent and no
connection be made.
-/

namespace StubResolver.Simulation

/-- A response whose ID becomes that of the request, with some bits inverted. -/
structure Template where
  octets : Octets
  idXor : UInt16

def Template.respond (t : Template) (request : Octets) : Octets :=
  withRequestId request t.octets t.idXor

/-- What happens on one datagram: something from another port, then the response. -/
structure UdpReply where
  stray : Option Octets
  response : Option Template

inductive TcpReply where
  | raw (octets : Octets)
  /-- A framed response, and octets behind it. -/
  | response (template : Template) (extra : Octets)
  | silence

structure Stream where
  replies : List TcpReply
  incoming : Incoming

def Stream.answer (stream : Stream) (request : Octets) : Stream :=
  let arrived := stream.incoming.octets
  match stream.replies with
  | [] => { stream with incoming := ⟨arrived, .closed⟩ }
  | .raw octets :: rest => ⟨rest, ⟨arrived ++ octets.toList, .closed⟩⟩
  | .response template extra :: rest =>
    let octets := (frame (template.respond request)).toList ++ extra.toList
    ⟨rest, ⟨arrived ++ octets, stream.incoming.ending⟩⟩
  | .silence :: rest => { stream with replies := rest }

structure LocalServer where
  address : SocketAddress
  strayAddress : SocketAddress
  linkUp : Bool
  acceptsConnections : Bool
  udpReplies : List UdpReply
  tcpReplies : List (List TcpReply)
  time : Duration
  socketsMade : Nat
  inboxes : List (Nat × List Datagram)
  streams : List (Nat × Stream)
  udpRequests : Nat
  tcpRequests : Nat
  tcpConnections : Nat

namespace LocalServer

def fresh (address strayAddress : SocketAddress) (linkUp acceptsConnections : Bool)
    (udpReplies : List UdpReply) (tcpReplies : List (List TcpReply)) : LocalServer :=
  ⟨address, strayAddress, linkUp, acceptsConnections, udpReplies, tcpReplies, 0, 0, [], [], 0, 0, 0⟩

def linkDown : String := "Network is unreachable (os error 101)"

def refused : String := "Connection refused (os error 111)"

/-! ## UDP -/

def inbox (s : LocalServer) (id : Nat) : List Datagram := (s.inboxes.lookup id).getD []

def setInbox (s : LocalServer) (id : Nat) (datagrams : List Datagram) : LocalServer :=
  { s with inboxes := (id, datagrams) :: s.inboxes.filter fun entry => entry.1 ≠ id }

def bind (isV4 : Bool) (s : LocalServer) : Except String UdpSocket × LocalServer :=
  (.ok ⟨s.socketsMade, isV4⟩, { s with socketsMade := s.socketsMade + 1 })

def datagrams (s : LocalServer) (reply : UdpReply) (request : Octets) : List Datagram :=
  let stray := reply.stray.map fun octets =>
    Datagram.mk s.strayAddress (withRequestId request octets 0)
  let response := reply.response.map fun template =>
    Datagram.mk s.address (template.respond request)
  stray.toList ++ response.toList

def receive (s : LocalServer) (socket : UdpSocket) (request : Octets) : LocalServer :=
  let s := { s with udpRequests := s.udpRequests + 1 }
  match s.udpReplies with
  | [] => s
  | reply :: rest =>
    let s := { s with udpReplies := rest }
    s.setInbox socket.id (s.inbox socket.id ++ s.datagrams reply request)

def send (socket : UdpSocket) (target : SocketAddress) (request : Octets) (s : LocalServer) :
    Except String Nat × LocalServer :=
  if !s.linkUp then (.error linkDown, s)
  else if target = s.address then (.ok request.size, s.receive socket request)
  else (.ok request.size, s)

def udpHost : UdpHost LocalServer where
  bind := bind
  send := send
  arrivals := fun socket s => (s.inbox socket.id).map .ok
  consume := fun socket count s => s.setInbox socket.id ((s.inbox socket.id).drop count)

/-! ## TCP -/

def stream (s : LocalServer) (id : Nat) : Stream :=
  (s.streams.lookup id).getD ⟨[], ⟨[], .closed⟩⟩

def setStream (s : LocalServer) (id : Nat) (stream : Stream) : LocalServer :=
  { s with streams := (id, stream) :: s.streams.filter fun entry => entry.1 ≠ id }

def connect (target : SocketAddress) (s : LocalServer) :
    Except String TcpConnection × LocalServer :=
  if !s.linkUp then (.error linkDown, s)
  else if target ≠ s.address || !s.acceptsConnections then (.error refused, s)
  else
    let id := s.socketsMade
    let opened := { s with
      socketsMade := id + 1
      tcpReplies := s.tcpReplies.tail
      tcpConnections := s.tcpConnections + 1 }
    let stream : Stream := ⟨s.tcpReplies.head?.getD [], ⟨[], .waiting⟩⟩
    (.ok ⟨id, s.time⟩, opened.setStream id stream)

def isReusable (maxLifetime : Duration) (connection : TcpConnection) (s : LocalServer) : Bool :=
  s.time - connection.opened < maxLifetime
    && (s.stream connection.id).incoming = ⟨[], .waiting⟩

def write (connection : TcpConnection) (framed : Octets) (s : LocalServer) :
    Except String Unit × LocalServer :=
  let stream := s.stream connection.id
  if stream.incoming.ending = .waiting then
    let request := framed.extract 2 framed.size
    let s := { s with tcpRequests := s.tcpRequests + 1 }
    (.ok (), s.setStream connection.id (stream.answer request))
  else (.ok (), s)

def consume (connection : TcpConnection) (count : Nat) (s : LocalServer) : LocalServer :=
  let stream := s.stream connection.id
  let rest := { stream.incoming with octets := stream.incoming.octets.drop count }
  s.setStream connection.id { stream with incoming := rest }

def tcpHost : TcpHost LocalServer where
  connect := connect
  isReusable := isReusable
  write := write
  incoming := fun connection s => (s.stream connection.id).incoming
  consume := consume

end LocalServer

/-! ## Transports -/

structure LocalNetwork where
  server : LocalServer
  udpConfig : UdpConfig
  tcpConfig : TcpConfig
  sockets : SocketPool
  connections : ConnectionPools

namespace LocalNetwork

/-- Queries a server at some time; there is no result if none ever comes. -/
def exchange (protocol : Protocol) (server : SocketAddress) (request : Octets) (time : Duration)
    (n : LocalNetwork) : Option (Except ClientError Octets) × LocalNetwork :=
  let world := { n.server with time := time }
  match protocol with
  | .udp =>
    let e := Udp.exchange LocalServer.udpHost n.udpConfig server request n.sockets world
    (e.result, { n with server := e.world, sockets := e.pool })
  | .tcp =>
    let e := Tcp.exchange LocalServer.tcpHost n.tcpConfig server request n.connections world
    (e.result, { n with server := e.world, connections := e.pools })

def pendingOf : Option (Except ClientError Octets) → Pending Octets
  | some result => .now result
  | none => .never

def surroundings (id : UInt16) : Surroundings LocalNetwork where
  query := fun protocol server request time n =>
    let (result, n) := n.exchange protocol server request time
    (⟨false, pendingOf result⟩, n)
  clock := fun n => n.server.time
  requestId := fun _ => id
  shuffle := fun servers => servers

/-- The network for a lookup that has transports of its own and pools nothing. -/
def withoutPools (n : LocalNetwork) : LocalNetwork :=
  { n with
    udpConfig := { UdpConfig.default with poolSockets := false }
    tcpConfig := { TcpConfig.default with poolConnections := false }
    sockets := .empty
    connections := .empty }

end LocalNetwork

end StubResolver.Simulation
