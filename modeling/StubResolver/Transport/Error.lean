import StubResolver.Code.ResponseCode
import StubResolver.Wire.Error

/-!
# Errors of transports and lookups

A transient error is a fault of the transport,
after which the same server may be asked again.
-/

namespace StubResolver

inductive ClientError where
  | compose (e : ComposeError)
  | parse (e : ParseError)
  | shortMessage
  | idMismatch (expected received : UInt16)
  /-- From here on `system` is what the operating system says. -/
  | udpBind (system : String)
  | udpSend (system : String)
  | udpShortSend
  | udpReceive (system : String)
  | streamConnect (system : String)
  | streamWrite (system : String)
  | streamRead (system : String)
  | streamEnd
  | connectionClosed
  | timeout
  | canceled
  | connectionTimeout
  | noConnection
  | noServers
  | dnsError (code : ResponseCode)
  /-- No place to wait for a response. -/
  | runtime (system : String)
  deriving DecidableEq

namespace ClientError

def isTransient : ClientError → Bool
  | shortMessage | idMismatch _ _ | udpBind _ | udpSend _ | udpShortSend | udpReceive _
  | streamConnect _ | streamWrite _ | streamRead _ | streamEnd | connectionClosed | timeout => true
  | _ => false

def message : ClientError → String
  | compose e => "cannot compose request: " ++ e.message
  | parse e => "cannot parse response: " ++ e.message
  | shortMessage => "octet sequence to short to be a valid message"
  | idMismatch expected received =>
    "response ID " ++ toString received.toNat ++ " does not match request ID "
      ++ toString expected.toNat
  | udpBind _ => "error binding UDP socket"
  | udpSend _ => "error sending to UDP socket"
  | udpShortSend => "partial sent to UDP socket"
  | udpReceive _ => "error receiving from UDP socket"
  | streamConnect _ => "error connecting stream"
  | streamWrite _ => "error writing to stream"
  | streamRead _ => "error reading from stream"
  | streamEnd => "unexpected end of data"
  | connectionClosed => "connection closed"
  | timeout => "timeout waiting for response"
  | canceled => "query canceled"
  | connectionTimeout => "connection timed out; no servers could be reached"
  | noConnection => "no connection could be made"
  | noServers => "no name servers configured"
  | dnsError code => "server returned error response " ++ code.text
  | runtime _ => "cannot run blocking query"

def source? : ClientError → Option String
  | compose e => some e.message
  | parse e => some e.message
  | udpBind system | udpSend system | udpReceive system | streamConnect system
  | streamWrite system | streamRead system | runtime system => some system
  | _ => none

end ClientError

end StubResolver
