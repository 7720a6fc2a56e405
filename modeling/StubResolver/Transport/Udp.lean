import StubResolver.Address.Socket
import StubResolver.Limits
import StubResolver.Transport.Basic

/-!
# Queries over UDP

A query sends one datagram and waits for one from the server; datagrams from
elsewhere are ignored. Its socket comes from a pool if there is one, and goes back to
the pool after a success. A socket that saw a failure is given up, as a late response
may still arrive on it.
-/

namespace StubResolver

structure UdpConfig where
  poolSockets : Bool
  receiveSize : Nat
  deriving DecidableEq

namespace UdpConfig

def receiveSizeLimits : Limits Nat := ⟨4096, 512, 65535⟩

def default : UdpConfig := ⟨true, receiveSizeLimits.default⟩

def setReceiveSize (c : UdpConfig) (n : Nat) : UdpConfig :=
  { c with receiveSize := receiveSizeLimits.limit n }

end UdpConfig

structure Datagram where
  source : SocketAddress
  octets : Octets
  deriving DecidableEq

structure UdpSocket where
  id : Nat
  isV4 : Bool
  deriving DecidableEq

/-- Idle sockets by address family, the one returned last in front. -/
structure SocketPool where
  v4 : List UdpSocket
  v6 : List UdpSocket
  deriving DecidableEq

namespace SocketPool

def empty : SocketPool := ⟨[], []⟩

def size (p : SocketPool) : Nat := p.v4.length + p.v6.length

def isEmpty (p : SocketPool) : Bool := p.size = 0

def take (p : SocketPool) (isV4 : Bool) : Option UdpSocket × SocketPool :=
  if isV4 then (p.v4.head?, { p with v4 := p.v4.tail })
  else (p.v6.head?, { p with v6 := p.v6.tail })

def put (p : SocketPool) (socket : UdpSocket) : SocketPool :=
  if socket.isV4 then { p with v4 := socket :: p.v4 } else { p with v6 := socket :: p.v6 }

end SocketPool

/-- What the host does for UDP. Errors are the texts of the operating system. -/
structure UdpHost (σ : Type) where
  bind : (isV4 : Bool) → σ → Except String UdpSocket × σ
  /-- Tells how many octets were sent. -/
  send : UdpSocket → SocketAddress → Octets → σ → Except String Nat × σ
  arrivals : UdpSocket → σ → List (Except String Datagram)
  consume : UdpSocket → Nat → σ → σ

namespace Udp

def optLength : Nat := 11

/-- The payload size in the OPT record that a request ends in. -/
def advertisedSize? (request : Octets) : Option Nat :=
  if request.size < headerLength + optLength then none
  else if request.extract 10 12 = #[0, 0] then none
  else
    match (request.extract (request.size - optLength) request.size).toList with
    | [0, 0, 41, high, low, _, _, _, _, 0, 0] => some (Wire.join16 high low).toNat
    | _ => none

def bufferSize (config : UdpConfig) (request : Octets) : Nat :=
  match advertisedSize? request with
  | some size => max size config.receiveSize
  | none => config.receiveSize

/-- The first arrival that counts, and how many were taken for it: an error, or a
datagram from the server, cut to the buffer. -/
def firstFrom (server : SocketAddress) (buffer : Nat) (taken : Nat) :
    List (Except String Datagram) → Option (Except ClientError Octets × Nat)
  | [] => none
  | .error e :: _ => some (.error (.udpReceive e), taken + 1)
  | .ok datagram :: rest =>
    if datagram.source = server then some (.ok (datagram.octets.extract 0 buffer), taken + 1)
    else firstFrom server buffer (taken + 1) rest

/-- How often another port is tried. -/
def bindRetries : Nat := 10

def bind {σ : Type} (host : UdpHost σ) (isV4 : Bool) (world : σ) :
    (retries : Nat) → Except ClientError UdpSocket × σ
  | 0 =>
    match host.bind isV4 world with
    | (.ok socket, world) => (.ok socket, world)
    | (.error e, world) => (.error (.udpBind e), world)
  | retries + 1 =>
    match host.bind isV4 world with
    | (.ok socket, world) => (.ok socket, world)
    | (.error _, world) => bind host isV4 world retries

/-- What an exchange leaves behind; it has no result if it waits forever. -/
structure Exchange (σ : Type) where
  result : Option (Except ClientError Octets)
  pool : SocketPool
  world : σ

def exchangeOn {σ : Type} (host : UdpHost σ) (config : UdpConfig) (server : SocketAddress)
    (request : Octets) (socket : UdpSocket) (pool : SocketPool) (world : σ) : Exchange σ :=
  match host.send socket server request world with
  | (.error e, world) => ⟨some (.error (.udpSend e)), pool, world⟩
  | (.ok sent, world) =>
    if sent ≠ request.size then ⟨some (.error .udpShortSend), pool, world⟩
    else
      match firstFrom server (bufferSize config request) 0 (host.arrivals socket world) with
      | none => ⟨none, pool, world⟩
      | some (.error e, taken) => ⟨some (.error e), pool, host.consume socket taken world⟩
      | some (.ok octets, taken) =>
        let world := host.consume socket taken world
        match checkResponse request octets with
        | .error e => ⟨some (.error e), pool, world⟩
        | .ok response =>
          ⟨some (.ok response), if config.poolSockets then pool.put socket else pool, world⟩

def exchange {σ : Type} (host : UdpHost σ) (config : UdpConfig) (server : SocketAddress)
    (request : Octets) (pool : SocketPool) (world : σ) : Exchange σ :=
  match pool.take server.isV4 with
  | (some socket, pool) => exchangeOn host config server request socket pool world
  | (none, pool) =>
    match bind host server.isV4 world bindRetries with
    | (.error e, world) => ⟨some (.error e), pool, world⟩
    | (.ok socket, world) => exchangeOn host config server request socket pool world

end Udp

end StubResolver
