import StubResolver.Record.Opt

/-!
# Record data

The data of the record types that a stub resolver needs, each with its reader and its
text. Data of any other type is kept as the octets it is.
-/

namespace StubResolver

structure Soa where
  primary : Name
  mailbox : Name
  serial : UInt32
  refresh : UInt32
  retry : UInt32
  expire : UInt32
  minimum : UInt32
  deriving DecidableEq

inductive RecordData where
  | a (ip : Ip4)
  | aaaa (ip : Ip6)
  | ns (host : Name)
  | cname (target : Name)
  | ptr (target : Name)
  | mx (preference : UInt16) (exchange : Name)
  | txt (strings : List (List UInt8))
  | soa (soa : Soa)
  | opt (opt : Opt)
  | unknown (type : RecordType) (octets : List UInt8)
  deriving DecidableEq

namespace Soa

def caseFold (s : Soa) : Soa :=
  { s with primary := s.primary.caseFold, mailbox := s.mailbox.caseFold }

def read : Reader Soa := do
  let primary ← Name.read
  let mailbox ← Name.read
  let serial ← Reader.u32
  let refresh ← Reader.u32
  let retry ← Reader.u32
  let expire ← Reader.u32
  let minimum ← Reader.u32
  return ⟨primary, mailbox, serial, refresh, retry, expire, minimum⟩

def text (s : Soa) : String :=
  " ".intercalate
    (s.primary.text :: s.mailbox.text ::
      [s.serial, s.refresh, s.retry, s.expire, s.minimum].map fun v => toString v.toNat)

end Soa

namespace RecordData

def caseFold : RecordData → RecordData
  | ns host => ns host.caseFold
  | cname target => cname target.caseFold
  | ptr target => ptr target.caseFold
  | mx preference exchange => mx preference exchange.caseFold
  | soa s => soa s.caseFold
  | data => data

def isOpt : RecordData → Bool
  | opt _ => true
  | _ => false

def opt? : RecordData → Option Opt
  | opt o => some o
  | _ => none

/-! ## Texts -/

def stringsChars : List (List UInt8) → List Char
  | [] => []
  | [s] => '"' :: Text.escapeChars s ++ ['"']
  | s :: rest => '"' :: Text.escapeChars s ++ ['"', ' '] ++ stringsChars rest

def unknownText (octets : List UInt8) : String :=
  "\\# " ++ toString octets.length ++ (if octets.isEmpty then "" else " " ++ Text.hexText octets)

def text : RecordData → String
  | a ip => ip.text
  | aaaa ip => ip.text
  | ns host => host.text
  | cname target => target.text
  | ptr target => target.text
  | mx preference exchange => toString preference.toNat ++ " " ++ exchange.text
  | txt strings => String.ofList (stringsChars strings)
  | soa s => s.text
  | opt o => o.text
  | unknown _ octets => unknownText octets

/-! ## Readers -/

/-- Takes character strings, each behind its length, up to the position `stop`; those
taken so far, last first, go in `done`. -/
def stringsUpTo (stop : Nat) (done : List (List UInt8)) (m : Octets) (pos : Nat) :
    EStateM.Result ParseError Nat (List (List UInt8)) :=
  if stop ≤ pos then .ok done.reverse pos
  else
    match m[pos]? with
    | none => .error .shortInput pos
    | some length =>
      let start := pos + 1
      if stop < start + length.toNat then
        .error (.form "character string exceeds record data") start
      else if start + length.toNat ≤ m.size then
        stringsUpTo stop ((m.extract start (start + length.toNat)).toList :: done) m
          (start + length.toNat)
      else .error .shortInput start
termination_by stop - pos

def readTxt (header : RecordHeader) : Reader RecordData := do
  let pos ← Reader.position
  let strings ← stringsUpTo (pos + header.dataLength.toNat) []
  return txt strings

def readA : Reader RecordData := a <$> Reader.ip4

def readAaaa : Reader RecordData := aaaa <$> Reader.ip6

def readNs : Reader RecordData := ns <$> Name.read

def readCname : Reader RecordData := cname <$> Name.read

def readPtr : Reader RecordData := ptr <$> Name.read

def readMx : Reader RecordData := do
  let preference ← Reader.u16
  let exchange ← Name.read
  return mx preference exchange

def readSoa : Reader RecordData := soa <$> Soa.read

def readOpt (header : RecordHeader) : Reader RecordData := opt <$> Opt.read header

def readUnknown (header : RecordHeader) : Reader RecordData :=
  unknown header.type <$> Reader.take header.dataLength.toNat

end RecordData

end StubResolver
