import StubResolver.Lookup.Run
import StubResolver.Name.Reverse

/-!
# Clients

A client looks up questions at its servers, or at others that it is given.
-/

namespace StubResolver

structure Client where
  servers : List NameServer
  config : LookupConfig
  registry : Registry

namespace Client

variable {σ : Type}

def queryServers (c : Client) (surroundings : Surroundings σ) (servers : List NameServer)
    (question : Question) (token : Token) (session : Session σ) :
    LookupResult × Session σ :=
  let setting : Lookup.Setting σ := ⟨surroundings, c.config, c.registry, question⟩
  let trail := if c.config.auditTrail then some [] else none
  let (result, progress) := (Lookup.lookup setting servers).run ⟨session, token, trail, none⟩
  (result, progress.session)

def query (c : Client) (surroundings : Surroundings σ) (question : Question) (token : Token)
    (session : Session σ) : LookupResult × Session σ :=
  c.queryServers surroundings c.servers question token session

def reverseQuestion (ip : IpAddress) : Question := ⟨.reverse ip, .ptr, .internet⟩

def queryReverse (c : Client) (surroundings : Surroundings σ) (ip : IpAddress)
    (session : Session σ) : LookupResult × Session σ :=
  c.query surroundings (reverseQuestion ip) .unheld session

/-- Looks up a question while the caller waits, which
only works where nothing else is waited for. -/
def queryBlocking (c : Client) (surroundings : Surroundings σ) (withinRuntime : Bool)
    (question : Question) (session : Session σ) : LookupResult × Session σ :=
  if withinRuntime then
    let error := ClientError.runtime "blocking query from within a runtime"
    (.error ⟨error, question, none, none, none⟩, session)
  else c.query surroundings question .unheld session

end Client

end StubResolver
