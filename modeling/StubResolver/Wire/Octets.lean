/-!
# Octets and integers on the wire

Integers are written with their highest octet first.
-/

namespace StubResolver

/-- The octets of a whole message. -/
abbrev Octets := Array UInt8

namespace Wire

def octets16 (v : UInt16) : List UInt8 := [(v >>> 8).toUInt8, v.toUInt8]

def octets32 (v : UInt32) : List UInt8 :=
  [(v >>> 24).toUInt8, (v >>> 16).toUInt8, (v >>> 8).toUInt8, v.toUInt8]

def join16 (high low : UInt8) : UInt16 := (high.toUInt16 <<< 8) ||| low.toUInt16

def join32 (a b c d : UInt8) : UInt32 :=
  (a.toUInt32 <<< 24) ||| (b.toUInt32 <<< 16) ||| (c.toUInt32 <<< 8) ||| d.toUInt32

end Wire

end StubResolver
