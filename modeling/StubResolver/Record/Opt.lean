import StubResolver.Code.ResponseCode
import StubResolver.Record.Header

/-!
# OPT records

An OPT record gives other meanings to the fields of the record header. The class is
the largest UDP payload that the sender takes. The time to live holds the upper eight
bits of the response code, the version, and the bit that asks for DNSSEC records.
-/

namespace StubResolver

structure Opt where
  payloadSize : UInt16
  extendedRcode : UInt8
  version : UInt8
  dnssecOk : Bool
  options : List UInt8
  deriving DecidableEq

namespace Opt

def ofRequest (payloadSize : UInt16) (dnssecOk : Bool) : Opt := ⟨payloadSize, 0, 0, dnssecOk, []⟩

def dnssecOkMask : UInt32 := 0x8000

def responseCode (o : Opt) (header : HeaderRcode) : ResponseCode :=
  .ofParts header o.extendedRcode

def ttlField (o : Opt) : UInt32 :=
  (o.extendedRcode.toUInt32 <<< 24) ||| (o.version.toUInt32 <<< 16)
    ||| (if o.dnssecOk then dnssecOkMask else 0)

def read (header : RecordHeader) : Reader Opt := do
  let ttl := header.ttl.toUInt32
  let options ← Reader.take header.dataLength.toNat
  return ⟨header.recordClass.code, (ttl >>> 24).toUInt8, (ttl >>> 16).toUInt8,
    ttl &&& dnssecOkMask != 0, options⟩

/-- Writes the whole record with the root as its owner. -/
def write (o : Opt) : Writer :=
  if 0xFFFF < o.options.length then Writer.fail .shortBuffer
  else do
    Writer.u8 0
    RecordType.opt.write
    RecordClass.write ⟨o.payloadSize⟩
    Writer.u32 o.ttlField
    Writer.u16 o.options.length.toUInt16
    Writer.octets o.options

def text (o : Opt) : String :=
  "OPT udp=" ++ toString o.payloadSize.toNat ++ " version=" ++ toString o.version.toNat
    ++ " ext_rcode=" ++ toString o.extendedRcode.toNat ++ (if o.dnssecOk then " do" else "")

end Opt

end StubResolver
