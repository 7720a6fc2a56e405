import StubResolver.Address.Socket
import StubResolver.Message.Basic
import StubResolver.Transport.Basic

/-!
# Lookup results and their audit trail
-/

namespace StubResolver

inductive AuditEvent where
  | resolvedServers (servers : List SocketAddress)
  | cacheHit (server : SocketAddress)
  | attempt (server : SocketAddress) (protocol : Protocol) (number : Nat)
  | truncatedRetryTcp (server : SocketAddress)
  /-- An error code moves the lookup on to the next server. -/
  | retryNextServer (server : SocketAddress) (code : ResponseCode)
  | responseHeader (header : Header) (size : Nat)
  | responseError (code : ResponseCode)
  | transportError (server : SocketAddress) (error : ClientError)
  /-- The lookup is over, with a response of that size if there is one. -/
  | ended (size : Option Nat)
  deriving DecidableEq

abbrev AuditTrail := List AuditEvent

structure LookupResponse where
  message : Message
  server : SocketAddress
  fromCache : Bool
  trail : Option AuditTrail

structure LookupFailure where
  error : ClientError
  question : Question
  server : Option SocketAddress
  trail : Option AuditTrail
  response : Option Message

def LookupFailure.message (f : LookupFailure) : String :=
  let via := match f.server with
    | some server => " via " ++ server.text
    | none => ""
  "lookup of " ++ f.question.text ++ via ++ " failed: " ++ f.error.message

abbrev LookupResult := Except LookupFailure LookupResponse

end StubResolver
