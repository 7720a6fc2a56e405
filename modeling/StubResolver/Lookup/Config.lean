import StubResolver.Limits
import StubResolver.Time.Clock

/-!
# Lookup settings
-/

namespace StubResolver

structure LookupConfig where
  /-- How often a server is asked again after a failure. -/
  retries : Nat
  timeout : Duration
  recursion : Bool
  /-- Whether responses cut short are asked for again over TCP. -/
  tcpFallback : Bool
  tcpOnly : Bool
  randomOrder : Bool
  /-- Whether a response with an error code makes the lookup fail. -/
  throwDnsErrors : Bool
  /-- Whether a response with an error code
  makes the lookup go on to the next server. -/
  continueOnDnsError : Bool
  useCache : Bool
  auditTrail : Bool
  udpPayloadSize : UInt16
  deriving DecidableEq

namespace LookupConfig

def retriesLimits : Limits Nat := ⟨5, 0, 100⟩

def timeoutLimits : Limits Duration := ⟨.ofSeconds 5, .ofMillis 1, .ofMillis 0x7FFFFFFF⟩

def payloadLimits : Limits UInt16 := ⟨4096, 512, 65535⟩

def default : LookupConfig where
  retries := retriesLimits.default
  timeout := timeoutLimits.default
  recursion := true
  tcpFallback := true
  tcpOnly := false
  randomOrder := true
  throwDnsErrors := false
  continueOnDnsError := true
  useCache := true
  auditTrail := false
  udpPayloadSize := payloadLimits.default

def setRetries (c : LookupConfig) (n : Nat) : LookupConfig :=
  { c with retries := retriesLimits.limit n }

def setTimeout (c : LookupConfig) (d : Duration) : LookupConfig :=
  { c with timeout := timeoutLimits.limit d }

def setUdpPayloadSize (c : LookupConfig) (n : UInt16) : LookupConfig :=
  { c with udpPayloadSize := payloadLimits.limit n }

end LookupConfig

end StubResolver
