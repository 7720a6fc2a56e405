import StubResolver.Lookup.Session

/-!
# Servers that follow a script

A script gives each server a list of replies per protocol. Every query takes the
first one, and the last one stays for all further queries. Responses carry the ID of
their request, or one that differs from it in chosen bits.
-/

namespace StubResolver.Simulation

inductive Answer where
  | failure (error : ClientError)
  /-- Octets whose ID becomes that of the request, with some bits inverted. -/
  | octets (octets : Octets) (idXor : UInt16)

structure Reply where
  cancels : Bool
  delay : Duration
  hangs : Bool
  answer : Answer

def withRequestId (request response : Octets) (idXor : UInt16) : Octets :=
  match messageId? request, messageId? response with
  | some id, some _ => (Wire.octets16 (id ^^^ idXor)).toArray ++ response.extract 2 response.size
  | _, _ => response

def Answer.toRequest (request : Octets) : Answer → Except ClientError Octets
  | failure error => .error error
  | octets os idXor => checkResponse request (withRequestId request os idXor)

def Reply.call (r : Reply) (request : Octets) : Call where
  cancels := r.cancels
  outcome := ⟨if r.hangs then none else some r.delay, r.answer.toRequest request⟩

structure ServerScript where
  udp : List Reply
  tcp : List Reply

structure Script where
  clock : Clock
  servers : List (SocketAddress × ServerScript)

/-- Takes the first reply and keeps the last one. -/
def nextReply : List Reply → Option Reply × List Reply
  | [] => (none, [])
  | [reply] => (some reply, [reply])
  | reply :: rest => (some reply, rest)

def ServerScript.next (s : ServerScript) : Protocol → Option Reply × ServerScript
  | .udp => let (reply, rest) := nextReply s.udp; (reply, { s with udp := rest })
  | .tcp => let (reply, rest) := nextReply s.tcp; (reply, { s with tcp := rest })

/-- A server without replies closes the connection. -/
def callOf (request : Octets) : Option Reply → Call
  | some reply => reply.call request
  | none => ⟨false, .now (.error .connectionClosed)⟩

def Script.query (protocol : Protocol) (server : SocketAddress) (request : Octets)
    (s : Script) : Call × Script :=
  match s.servers.lookup server with
  | none => (callOf request none, s)
  | some script =>
    let (reply, script) := script.next protocol
    let others := s.servers.filter fun entry => entry.1 ≠ server
    (callOf request reply, { s with servers := (server, script) :: others })

/-- Lookups against scripted servers; servers
keep their order and all requests have one ID. -/
def surroundings (id : UInt16) : Surroundings Script where
  query := fun protocol server request _ script => script.query protocol server request
  clock := fun script => script.clock.now
  requestId := fun _ => id
  shuffle := fun servers => servers

end StubResolver.Simulation
