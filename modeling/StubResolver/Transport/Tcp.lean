import StubResolver.Address.Socket
import StubResolver.Limits
import StubResolver.Transport.Basic

/-!
# Queries over TCP

On a stream, each message stands behind its length in two octets. A query uses an
idle connection to the server, the one returned last first; connections that are too
old or on which something waits are given up, and so is one on which the query fails,
before another is tried. Without an idle connection a new one is opened, and its
failure is the failure of the query.
-/

namespace StubResolver

structure TcpConfig where
  poolConnections : Bool
  maxLifetime : Duration
  deriving DecidableEq

namespace TcpConfig

def maxLifetimeLimits : Limits Duration := ⟨.ofSeconds 5, 0, .ofSeconds 3600⟩

def default : TcpConfig := ⟨true, maxLifetimeLimits.default⟩

def setMaxLifetime (c : TcpConfig) (d : Duration) : TcpConfig :=
  { c with maxLifetime := maxLifetimeLimits.limit d }

end TcpConfig

structure TcpConnection where
  id : Nat
  opened : Duration
  deriving DecidableEq

/-- Idle connections by server, the one returned last in front. -/
structure ConnectionPools where
  pools : List (SocketAddress × List TcpConnection)
  deriving DecidableEq

namespace ConnectionPools

def empty : ConnectionPools := ⟨[]⟩

def idle (p : ConnectionPools) (server : SocketAddress) : List TcpConnection :=
  (p.pools.lookup server).getD []

def setIdle (p : ConnectionPools) (server : SocketAddress) (connections : List TcpConnection) :
    ConnectionPools :=
  ⟨(server, connections) :: p.pools.filter fun entry => entry.1 ≠ server⟩

def push (p : ConnectionPools) (server : SocketAddress) (connection : TcpConnection) :
    ConnectionPools :=
  p.setIdle server (connection :: p.idle server)

/-- Takes the usable connection returned last,
and gives up those returned after it. -/
def takeUsable (p : ConnectionPools) (server : SocketAddress) (usable : TcpConnection → Bool) :
    Option TcpConnection × ConnectionPools :=
  match (p.idle server).dropWhile fun connection => !usable connection with
  | [] => (none, p.setIdle server [])
  | connection :: rest => (some connection, p.setIdle server rest)

@[simp] theorem idle_setIdle (p : ConnectionPools) (server : SocketAddress)
    (connections : List TcpConnection) :
    (p.setIdle server connections).idle server = connections := by
  simp [idle, setIdle]

theorem length_idle_of_takeUsable {p rest : ConnectionPools} {server : SocketAddress}
    {usable : TcpConnection → Bool} {connection : TcpConnection}
    (h : p.takeUsable server usable = (some connection, rest)) :
    (rest.idle server).length < (p.idle server).length := by
  have hle := ((p.idle server).dropWhile_suffix fun connection => !usable connection).length_le
  unfold takeUsable at h
  split at h <;> rename_i heq <;> cases h
  rw [heq] at hle
  rw [idle_setIdle]
  exact hle

end ConnectionPools

/-! ## Framing -/

/-- What comes behind the octets that arrive on a stream. -/
inductive StreamEnd where
  /-- Nothing, ever. -/
  | waiting
  | closed
  | failed (system : String)
  deriving DecidableEq

structure Incoming where
  octets : List UInt8
  ending : StreamEnd
  deriving DecidableEq

/-- What reading on at the end of a stream comes to, if it comes to an end. -/
def StreamEnd.error? : StreamEnd → Option ClientError
  | waiting => none
  | closed => some .streamEnd
  | failed system => some (.streamRead system)

def frame (message : Octets) : Octets := (Wire.octets16 message.size.toUInt16).toArray ++ message

/-- Takes a message off a stream, and tells how many octets it took; there is no
result if the rest of the message never arrives. -/
def Incoming.message? (i : Incoming) : Option (Except ClientError Octets × Nat) :=
  match i.octets with
  | high :: low :: rest =>
    let length := (Wire.join16 high low).toNat
    if length = 0 then some (.error .connectionClosed, 2)
    else if length ≤ rest.length then some (.ok (rest.take length).toArray, length + 2)
    else i.ending.error?.map fun e => (.error e, i.octets.length)
  | _ => i.ending.error?.map fun e => (.error e, i.octets.length)

/-! ## Exchanges -/

/-- What the host does for TCP. Errors are the texts of the operating system. -/
structure TcpHost (σ : Type) where
  connect : SocketAddress → σ → Except String TcpConnection × σ
  /-- Whether an idle connection is younger than
  the given age and nothing waits on it. -/
  isReusable : (maxLifetime : Duration) → TcpConnection → σ → Bool
  write : TcpConnection → Octets → σ → Except String Unit × σ
  incoming : TcpConnection → σ → Incoming
  consume : TcpConnection → Nat → σ → σ

namespace Tcp

/-- Sends a request on a connection and takes the response;
there is no result if the exchange waits forever. -/
def exchangeOn {σ : Type} (host : TcpHost σ) (connection : TcpConnection) (request : Octets)
    (world : σ) : Option (Except ClientError Octets) × σ :=
  if 0xFFFF < request.size then (some (.error (.compose .shortBuffer)), world)
  else
    match host.write connection (frame request) world with
    | (.error e, world) => (some (.error (.streamWrite e)), world)
    | (.ok (), world) =>
      match (host.incoming connection world).message? with
      | none => (none, world)
      | some (result, taken) =>
        (some (result.bind (checkResponse request)), host.consume connection taken world)

/-- What an exchange leaves behind; it has no result if it waits forever. -/
structure Exchange (σ : Type) where
  result : Option (Except ClientError Octets)
  pools : ConnectionPools
  world : σ

def exchangeFresh {σ : Type} (host : TcpHost σ) (config : TcpConfig) (server : SocketAddress)
    (request : Octets) (pools : ConnectionPools) (world : σ) : Exchange σ :=
  match host.connect server world with
  | (.error e, world) => ⟨some (.error (.streamConnect e)), pools, world⟩
  | (.ok connection, world) =>
    match exchangeOn host connection request world with
    | (some (.ok response), world) =>
      let pools := if config.poolConnections then pools.push server connection else pools
      ⟨some (.ok response), pools, world⟩
    | (result, world) => ⟨result, pools, world⟩

def takeIdle {σ : Type} (host : TcpHost σ) (config : TcpConfig) (server : SocketAddress)
    (pools : ConnectionPools) (world : σ) : Option TcpConnection × ConnectionPools :=
  if config.poolConnections then
    pools.takeUsable server fun connection => host.isReusable config.maxLifetime connection world
  else (none, pools)

theorem length_idle_of_takeIdle {σ : Type} {host : TcpHost σ} {config : TcpConfig}
    {server : SocketAddress} {pools rest : ConnectionPools} {world : σ}
    {connection : TcpConnection}
    (h : takeIdle host config server pools world = (some connection, rest)) :
    (rest.idle server).length < (pools.idle server).length := by
  unfold takeIdle at h
  split at h
  · exact ConnectionPools.length_idle_of_takeUsable h
  · cases h

/-- Tries idle connections until an exchange
on one succeeds, and then a new connection. -/
def exchange {σ : Type} (host : TcpHost σ) (config : TcpConfig) (server : SocketAddress)
    (request : Octets) (pools : ConnectionPools) (world : σ) : Exchange σ :=
  match _h : takeIdle host config server pools world with
  | (none, pools) => exchangeFresh host config server request pools world
  | (some connection, rest) =>
    match exchangeOn host connection request world with
    | (some (.ok response), world) => ⟨some (.ok response), rest.push server connection, world⟩
    | (some (.error _), world) => exchange host config server request rest world
    | (none, world) => ⟨none, rest, world⟩
termination_by (pools.idle server).length
decreasing_by exact length_idle_of_takeIdle _h

end Tcp

end StubResolver
