import StubResolver.Lookup.Config
import StubResolver.Lookup.Result
import StubResolver.Lookup.Session
import StubResolver.Lookup.Token
import StubResolver.Message.Request

/-!
# Resolving a question

A lookup asks one server after the other. Each is asked up to one plus the configured
number of retries times, over UDP, or over TCP if server or settings say so; a
response over UDP that was cut short is asked for again over TCP. Transient errors
lead to the next attempt, and any other error ends the lookup. A response with an
error code may move the lookup on to the next server; if no server gives a better
one, the last such response is the result. A token, once triggered, ends the lookup
wherever it is.
-/

namespace StubResolver.Lookup

structure Setting (σ : Type) where
  surroundings : Surroundings σ
  config : LookupConfig
  registry : Registry
  question : Question

structure Progress (σ : Type) where
  session : Session σ
  token : Token
  trail : Option AuditTrail
  /-- The server of the last attempt. -/
  server : Option SocketAddress

variable {σ : Type}

abbrev Step (σ α : Type) := StateM (Progress σ) α

def record (event : AuditEvent) : Step σ Unit :=
  modify fun p => { p with trail := p.trail.map (· ++ [event]) }

def Progress.isCanceled (p : Progress σ) : Bool := p.token.isTriggered p.session.time

def isCanceled : Step σ Bool := do return (← get).isCanceled

/-! ## Ends of a lookup -/

def failure (s : Setting σ) (error : ClientError) (response : Option Message) :
    Step σ LookupFailure := do
  record (.ended none)
  let p ← get
  return LookupFailure.mk error s.question p.server p.trail response

def fail (s : Setting σ) (error : ClientError) : Step σ LookupResult := do
  return .error (← failure s error none)

def succeed (message : Message) (server : SocketAddress) (fromCache : Bool) :
    Step σ LookupResult := do
  record (.ended (some message.size))
  let p ← get
  return .ok (LookupResponse.mk message server fromCache p.trail)

def endWithDnsError (s : Setting σ) (message : Message) (server : SocketAddress) :
    Step σ LookupResult :=
  if s.config.throwDnsErrors then do
    return .error (← failure s (.dnsError message.responseCode) (some message))
  else succeed message server false

/-! ## Attempts -/

/-- How a call ends under the time limit of an attempt and the token. A call that is
over at once ends before a token that it triggers itself. -/
def settle (timeout : Duration) (token : Option Duration) (outcome : Pending Octets) :
    Pending Octets :=
  if outcome.ready = some 0 then outcome.within timeout
  else (outcome.within timeout).unlessCanceled token

def send (s : Setting σ) (protocol : Protocol) (server : SocketAddress) (request : Octets) :
    Step σ (Except ClientError Octets) := do
  let p ← get
  if p.isCanceled then return .error .canceled
  else
    let session := p.session
    let (call, world) := s.surroundings.query protocol server request session.time session.world
    let token := if call.cancels then p.token.triggerAt session.time else p.token
    let final := settle s.config.timeout (token.time?.map (· - session.time)) call.outcome
    let time := session.time + final.ready.getD 0
    let queries := session.queries ++ [Query.mk server protocol request]
    let session := { session with world := world, time := time, queries := queries }
    set { p with session := session, token := token }
    return final.result

def takeId (s : Setting σ) : Step σ UInt16 := do
  let p ← get
  set { p with session := { p.session with idsUsed := p.session.idsUsed + 1 } }
  return s.surroundings.requestId p.session.idsUsed

def decode (s : Setting σ) (octets : Octets) : Except ClientError Message :=
  (Message.ofOctets s.registry octets).mapError .parse

/-- Asks a server once, and once more over TCP if its response was cut short. -/
def attempt (s : Setting σ) (server : NameServer) (number : Nat) :
    Step σ (Except ClientError Message) := do
  let id ← takeId s
  let request := Request.ofQuestion s.question s.config.recursion s.config.udpPayloadSize
  match (request.setId id).toOctets with
  | .error e => return .error (.compose e)
  | .ok octets =>
    let useTcp := s.config.tcpOnly || server.prefersTcp
    let protocol := if useTcp then Protocol.tcp else .udp
    record (.attempt server.address protocol number)
    match ← send s protocol server.address octets with
    | .error e => return .error e
    | .ok response =>
      match decode s response with
      | .error e => return .error e
      | .ok message =>
        if message.isTruncated && !useTcp && s.config.tcpFallback then
          record (.truncatedRetryTcp server.address)
          match ← send s .tcp server.address octets with
          | .error e => return .error e
          | .ok response => return decode s response
        else return .ok message

inductive Verdict where
  | finished (result : LookupResult)
  /-- Try the next server and keep this response in mind. -/
  | nextServer (message : Message)
  | nextAttempt (error : ClientError)

def store (s : Setting σ) (key : CacheKey) (message : Message) : Step σ Unit :=
  modify fun p =>
    let session := p.session
    let (_, cache) := session.cache.put key message (s.surroundings.clock session.world)
    { p with session := { session with cache := cache } }

def judge (s : Setting σ) (server : SocketAddress) (key : CacheKey) :
    Except ClientError Message → Step σ Verdict
  | .error e =>
    if e.isTransient then do
      record (.transportError server e)
      return .nextAttempt e
    else do
      return .finished (← fail s e)
  | .ok message => do
    record (.responseHeader message.header message.size)
    let code := message.responseCode
    if code.isError then
      record (.responseError code)
      if s.config.continueOnDnsError && !code.isFinal then
        record (.retryNextServer server code)
        return .nextServer message
      else return .finished (← endWithDnsError s message server)
    else
      if s.config.useCache then store s key message
      return .finished (← succeed message server false)

/-! ## The walk over the servers -/

structure Tally where
  failures : Nat
  timeouts : Nat
  /-- The last response with an error code that moved the lookup on. -/
  lastError : Option (SocketAddress × Message)

def Tally.empty : Tally := ⟨0, 0, none⟩

def Tally.add (t : Tally) (e : ClientError) : Tally :=
  { t with
    failures := t.failures + 1
    timeouts := if e = .timeout then t.timeouts + 1 else t.timeouts }

inductive Outcome where
  | finished (result : LookupResult)
  | goOn (tally : Tally)

/-- Asks a server up to `left` times; the next attempt has the given number. -/
def attempts (s : Setting σ) (server : NameServer) (key : CacheKey) (number : Nat)
    (tally : Tally) : (left : Nat) → Step σ Outcome
  | 0 => return .goOn tally
  | left + 1 => do
    if ← isCanceled then return .finished (← fail s .canceled)
    else
      let result ← attempt s server number
      match ← judge s server.address key result with
      | .finished result => return .finished result
      | .nextServer message =>
        return .goOn { tally with lastError := some (server.address, message) }
      | .nextAttempt e => attempts s server key (number + 1) (tally.add e) left

def cached (s : Setting σ) (key : CacheKey) : Step σ (Option Message) := do
  if s.config.useCache then
    let p ← get
    let session := p.session
    let (response, cache) := session.cache.get key (s.surroundings.clock session.world)
    set { p with session := { session with cache := cache } }
    return response
  else return none

def conclude (s : Setting σ) (tally : Tally) : Step σ LookupResult := do
  match tally.lastError with
  | some (server, message) =>
    modify fun p => { p with server := some server }
    endWithDnsError s message server
  | none =>
    if 0 < tally.failures ∧ tally.failures = tally.timeouts then fail s .connectionTimeout
    else fail s .noConnection

def walk (s : Setting σ) (tally : Tally) : List NameServer → Step σ LookupResult
  | [] => conclude s tally
  | server :: rest => do
    if ← isCanceled then fail s .canceled
    else
      modify fun p => { p with server := some server.address }
      let key := CacheKey.of server.address s.question
      match ← cached s key with
      | some message =>
        record (.cacheHit server.address)
        succeed message server.address true
      | none =>
        match ← attempts s server key 0 tally (s.config.retries + 1) with
        | .finished result => return result
        | .goOn tally => walk s tally rest

def lookup (s : Setting σ) (servers : List NameServer) : Step σ LookupResult := do
  if servers.isEmpty then fail s .noServers
  else
    let servers := if s.config.randomOrder then s.surroundings.shuffle servers else servers
    record (.resolvedServers (servers.map NameServer.address))
    walk s .empty servers

end StubResolver.Lookup
