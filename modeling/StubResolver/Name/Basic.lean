import StubResolver.Text.Escape
import StubResolver.Text.Lossy
import StubResolver.Wire.Error

/-!
# Domain names

A name is its labels, the root being the name without any. The labels of a valid name
have 1 to 63 octets, and its wire form at most 255; names read from messages may
break these limits. Names compare without regard to the case of ASCII letters: two
names are the same if their case folded forms are equal.
-/

namespace StubResolver

abbrev Label := List UInt8

structure Name where
  labels : List Label
  deriving DecidableEq

namespace Name

def root : Name := ⟨[]⟩

def isRoot (n : Name) : Bool := n.labels.isEmpty

def maxLabelLength : Nat := 63

def maxWireLength : Nat := 255

/-- The octets that labels take on the wire, the root label included. -/
def labelsWireLength : List Label → Nat
  | [] => 1
  | l :: rest => l.length + 1 + labelsWireLength rest

def wireLength (n : Name) : Nat := labelsWireLength n.labels

def labelError? (l : Label) : Option ComposeError :=
  if l.isEmpty then some .emptyLabel
  else if maxLabelLength < l.length then some .longLabel
  else none

/-- What is wrong with labels as a name: the first
bad label, or else the length of them all. -/
def labelsError? (labels : List Label) : Option ComposeError :=
  match labels.findSome? labelError? with
  | some e => some e
  | none => if maxWireLength < labelsWireLength labels then some .longName else none

def ofLabels (labels : List Label) : Except ComposeError Name :=
  match labelsError? labels with
  | some e => .error e
  | none => .ok ⟨labels⟩

/-! ## Comparison -/

def caseFold (n : Name) : Name := ⟨n.labels.map Text.lowerOctets⟩

def same (a b : Name) : Bool := a.caseFold = b.caseFold

/-- What a name feeds to a hasher: each label behind its length, then a zero. -/
def hashOctets (n : Name) : List UInt8 :=
  n.labels.flatMap (fun l => l.length.toUInt8 :: Text.lowerOctets l) ++ [0]

/-! ## Texts -/

/-- The presentation format, which ends in a dot. -/
def chars (n : Name) : List Char :=
  if n.isRoot then ['.'] else n.labels.flatMap fun l => Text.escapeChars l ++ ['.']

def text (n : Name) : String := String.ofList n.chars

def canonicalText (n : Name) : String := String.ofList (n.chars.map Char.toLower)

/-- The labels as they are, read as UTF-8. -/
def rawText (n : Name) : String :=
  if n.isRoot then "."
  else String.ofList (n.labels.flatMap fun l => Text.lossyChars l ++ ['.'])

def aceMark : Label := [0x78, 0x6E, 0x2D, 0x2D]

def hasAceLabel (n : Name) : Bool :=
  n.labels.any fun l => Text.lowerOctets (l.take aceMark.length) = aceMark

end Name

end StubResolver
