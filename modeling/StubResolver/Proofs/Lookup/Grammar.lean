import StubResolver.Proofs.Lookup.Cancellation

/-!
# The words of the audit trail

What a lookup does is written down in its audit trail as a word: the servers, a block
for each server that is tried, and the end. A block is a hit in the cache or a row of
attempts, and an attempt is the calls that are made and how it closes. With each part
goes where the lookup goes from there.
-/

namespace StubResolver

def AuditEvent.call? : AuditEvent → Option (SocketAddress × Protocol)
  | attempt server protocol _ => some (server, protocol)
  | truncatedRetryTcp server => some (server, .tcp)
  | _ => none

def AuditEvent.isEnded : AuditEvent → Bool
  | ended _ => true
  | _ => false

def AuditTrail.calls (trail : AuditTrail) : List (SocketAddress × Protocol) :=
  trail.filterMap AuditEvent.call?

def Query.call (q : Query) : SocketAddress × Protocol := (q.server, q.protocol)

namespace Lookup

variable {σ : Type}

inductive Next where
  | sameServer
  | nextServer
  | ended (result : LookupResult)

def Reported (s : Setting σ) (e : ClientError) : Prop :=
  ∃ protocol server request time world,
    (s.surroundings.query protocol server request time world).1.outcome.result = .error e

/-- The error ends a lookup, and nothing but the end tells of it: the lookup is
canceled, a response cannot be decoded, or a transport reports what is none of its
own faults. -/
def Silent (s : Setting σ) (e : ClientError) : Prop :=
  e = .canceled ∨ (∃ e', e = .parse e') ∨ e.isTransient = false ∧ Reported s e

inductive Calling (s : Setting σ) (server : NameServer) (number : Nat) : AuditTrail → Prop where
  | once : Calling s server number [.attempt server.address (firstProtocol s server) number]
  | twice (udp : firstProtocol s server = .udp) (fallback : s.config.tcpFallback = true) :
      Calling s server number [.attempt server.address (firstProtocol s server) number,
        .truncatedRetryTcp server.address]

inductive Closing (s : Setting σ) (server : SocketAddress) : AuditTrail → Next → Prop where
  | transportError {e : ClientError} (transient : e.isTransient = true) :
      Closing s server [.transportError server e] .sameServer
  | response {m : Message} {result : LookupResult} (clean : m.responseCode = .noError)
      (delivered : Delivered s server (.answer m) result) :
      Closing s server [.responseHeader m.header m.size] (.ended result)
  | nextServer {m : Message} (goesOn : (Finding.answer m).isFinal s.config = false) :
      Closing s server [.responseHeader m.header m.size, .responseError m.responseCode,
        .retryNextServer server m.responseCode] .nextServer
  | errorCode {m : Message} {result : LookupResult} (error : m.responseCode ≠ .noError)
      (final : (Finding.answer m).isFinal s.config = true)
      (delivered : Delivered s server (.answer m) result) :
      Closing s server [.responseHeader m.header m.size, .responseError m.responseCode]
        (.ended result)
  | silent {e : ClientError} {result : LookupResult} (silent : Silent s e)
      (delivered : Delivered s server (.broken e) result) : Closing s server [] (.ended result)

/-- A row of up to `left` attempts on a server,
the first of which has the given number. -/
inductive Block (s : Setting σ) (server : NameServer) :
    (number left : Nat) → AuditTrail → Next → Prop where
  | exhausted (number : Nat) : Block s server number 0 [] .nextServer
  | canceled {number left : Nat} {result : LookupResult}
      (delivered : Delivered s server.address (.broken .canceled) result) :
      Block s server (number + 1) (left + 1) [] (.ended result)
  | uncomposed {number left : Nat} {id : UInt16} {e : ComposeError} {result : LookupResult}
      (request : requestOctets s id = .error e)
      (delivered : Delivered s server.address (.broken (.compose e)) result) :
      Block s server number (left + 1) [] (.ended result)
  | last {number left : Nat} {calls closing : AuditTrail} {next : Next}
      (calling : Calling s server number calls) (closes : Closing s server.address closing next)
      (leaves : next ≠ .sameServer) : Block s server number (left + 1) (calls ++ closing) next
  | again {number left : Nat} {calls closing events : AuditTrail} {next : Next}
      (calling : Calling s server number calls)
      (closes : Closing s server.address closing .sameServer)
      (later : Block s server (number + 1) left events next) :
      Block s server number (left + 1) (calls ++ closing ++ events) next

inductive Blocks (s : Setting σ) : List NameServer → AuditTrail → LookupResult → Prop where
  | exhausted (result : LookupResult) : Blocks s [] [] result
  | canceled {servers : List NameServer} {f : LookupFailure} (canceled : f.error = .canceled) :
      Blocks s servers [] (.error f)
  | cacheHit {server : NameServer} {rest : List NameServer} {m : Message} {result : LookupResult}
      (used : s.config.useCache = true)
      (delivered : Delivered s server.address (.cached m) result) :
      Blocks s (server :: rest) [.cacheHit server.address] result
  | last {server : NameServer} {rest : List NameServer} {events : AuditTrail}
      {result : LookupResult}
      (block : Block s server 0 (s.config.retries + 1) events (.ended result)) :
      Blocks s (server :: rest) events result
  | onward {server : NameServer} {rest : List NameServer} {events later : AuditTrail}
      {result : LookupResult} (block : Block s server 0 (s.config.retries + 1) events .nextServer)
      (blocks : Blocks s rest later result) : Blocks s (server :: rest) (events ++ later) result

inductive Word (s : Setting σ) : List NameServer → AuditTrail → LookupResult → Prop where
  | noServers (result : LookupResult) : Word s [] [] result
  | servers {servers : List NameServer} {events : AuditTrail} {result : LookupResult}
      (some : servers ≠ []) (blocks : Blocks s servers events result) :
      Word s servers (.resolvedServers (servers.map NameServer.address) :: events) result

/-! ## No other end -/

section

variable {s : Setting σ} {server : NameServer} {servers : List NameServer} {number left : Nat}
  {events : AuditTrail} {next : Next} {result : LookupResult}

def Unended (events : AuditTrail) : Prop := ∀ event ∈ events, event.isEnded = false

theorem Unended.append {events' : AuditTrail} (h : Unended events) (h' : Unended events') :
    Unended (events ++ events') :=
  List.forall_mem_append.2 ⟨h, h'⟩

theorem Calling.unended (h : Calling s server number events) : Unended events := by
  cases h <;> simp [Unended, AuditEvent.isEnded]

theorem Closing.unended {server : SocketAddress} (h : Closing s server events next) :
    Unended events := by
  cases h <;> simp [Unended, AuditEvent.isEnded]

theorem Block.unended (h : Block s server number left events next) : Unended events := by
  induction h with
  | exhausted | canceled | uncomposed => simp [Unended]
  | last calling closes leaves => exact calling.unended.append closes.unended
  | again calling closes later ih => exact (calling.unended.append closes.unended).append ih

theorem Blocks.unended (h : Blocks s servers events result) : Unended events := by
  induction h with
  | exhausted | canceled => simp [Unended]
  | cacheHit used delivered => simp [Unended, AuditEvent.isEnded]
  | last block => exact block.unended
  | onward block blocks ih => exact block.unended.append ih

theorem Word.unended (h : Word s servers events result) : Unended events := by
  cases h with
  | noServers => simp [Unended]
  | servers some blocks => exact List.forall_mem_cons.2 ⟨rfl, blocks.unended⟩

end

end Lookup

end StubResolver
