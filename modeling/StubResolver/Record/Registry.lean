import StubResolver.Record.Basic

/-!
# Decoders by record type

A registry holds the decoders of record data, in the order of their types. A record's
data has to end exactly where its header says; a decoder that stops elsewhere is at
fault. Types without a decoder are kept as octets.
-/

namespace StubResolver

abbrev Decoder := RecordHeader → Reader RecordData

def Decoder.skipping (count : Nat) : Decoder := fun header => do
  Reader.skip count
  return .unknown header.type []

/-- Takes no data to be in order. -/
def Decoder.failing (reason : String) : Decoder := fun _ => Reader.fail (.form reason)

structure Registry where
  decoders : List (RecordType × Decoder)

namespace Registry

def empty : Registry := ⟨[]⟩

def find? (r : Registry) (type : RecordType) : Option Decoder :=
  (r.decoders.find? fun entry => entry.1 = type).map Prod.snd

/-- Puts an entry in its place, instead of one for the same type. -/
def insertEntry (entry : RecordType × Decoder) :
    List (RecordType × Decoder) → List (RecordType × Decoder)
  | [] => [entry]
  | other :: rest =>
    if entry.1.code < other.1.code then entry :: other :: rest
    else if entry.1 = other.1 then entry :: rest
    else other :: insertEntry entry rest

def register (r : Registry) (type : RecordType) (decoder : Decoder) : Registry :=
  ⟨insertEntry (type, decoder) r.decoders⟩

def standard : Registry where
  decoders :=
    [(.a, fun _ => RecordData.readA), (.ns, fun _ => RecordData.readNs),
     (.cname, fun _ => RecordData.readCname), (.soa, fun _ => RecordData.readSoa),
     (.ptr, fun _ => RecordData.readPtr), (.mx, fun _ => RecordData.readMx),
     (.txt, RecordData.readTxt), (.aaaa, fun _ => RecordData.readAaaa),
     (.opt, RecordData.readOpt)]

def debugText (r : Registry) : String :=
  "Registry \x7b types: [" ++ ", ".intercalate (r.decoders.map fun entry => entry.1.debugText)
    ++ "] \x7d"

def decoderFor (r : Registry) (type : RecordType) : Decoder :=
  (r.find? type).getD RecordData.readUnknown

def readRecord (r : Registry) : Reader Record := do
  let header ← RecordHeader.read
  Reader.require header.dataLength.toNat
  let start ← Reader.position
  let data ← r.decoderFor header.type header
  let stop ← Reader.position
  let consumed := stop.toUInt64 - start.toUInt64
  if consumed = header.dataLength.toUInt64 then return ⟨header, data⟩
  else Reader.fail (.desync header.type header.dataLength consumed)

end Registry

end StubResolver
