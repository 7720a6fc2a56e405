import StubResolver.Name.Basic

/-!
# Reading names from their presentation format

Labels are separated by dots, and a dot may follow the last one. A backslash makes
the next octet part of the label: three decimal digits stand for the octet of that
value, anything else for itself. The text is first cut into dots and label octets and
then put together label by label, so that of several faults the first one in the text
is reported.
-/

namespace StubResolver

inductive NameTextError where
  | emptyLabel
  | longLabel
  | longName
  | badEscape
  deriving DecidableEq

def NameTextError.message : NameTextError → String
  | .emptyLabel => "empty label"
  | .longLabel => "label too long"
  | .longName => "domain name too long"
  | .badEscape => "invalid escape sequence"

namespace Name

inductive Token where
  | dot
  | octet (o : UInt8)
  /-- A backslash without the digits or octet it needs; nothing is read behind it. -/
  | badEscape
  deriving DecidableEq

def dot : UInt8 := 0x2E

def backslash : UInt8 := 0x5C

def digitsOctet? (a b c : UInt8) : Option UInt8 :=
  let value := Text.digitValue a * 100 + Text.digitValue b * 10 + Text.digitValue c
  if Text.isDigit a ∧ Text.isDigit b ∧ Text.isDigit c ∧ value ≤ 255 then some value.toUInt8
  else none

def tokens : List UInt8 → List Token
  | [] => []
  | o :: rest =>
    if o = dot then .dot :: tokens rest
    else if o ≠ backslash then .octet o :: tokens rest
    else
      match rest with
      | [] => [.badEscape]
      | a :: rest =>
        if !Text.isDigit a then .octet a :: tokens rest
        else
          match rest with
          | b :: c :: rest =>
            match digitsOctet? a b c with
            | some o => .octet o :: tokens rest
            | none => [.badEscape]
          | _ => [.badEscape]

/-- Collects labels; `label` and `labels` hold what has been read, last first. -/
def assemble (label : Label) (labels : List Label) : List Token → Except NameTextError (List Label)
  | [] => .ok (if label.isEmpty then labels else label.reverse :: labels).reverse
  | .dot :: rest =>
    if label.isEmpty then .error .emptyLabel else assemble [] (label.reverse :: labels) rest
  | .octet o :: rest =>
    if maxLabelLength ≤ label.length then .error .longLabel else assemble (o :: label) labels rest
  | .badEscape :: _ => .error .badEscape

def ofTextOctets (octets : List UInt8) : Except NameTextError Name :=
  if octets = [dot] then .ok root
  else
    match assemble [] [] (tokens octets) with
    | .error e => .error e
    | .ok labels =>
      match ofLabels labels with
      | .ok name => .ok name
      | .error .longLabel => .error .longLabel
      | .error .emptyLabel => .error .emptyLabel
      | .error _ => .error .longName

def ofText (text : String) : Except NameTextError Name := ofTextOctets (Text.octetsOf text)

end Name

end StubResolver
