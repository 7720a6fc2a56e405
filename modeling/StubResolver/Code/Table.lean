/-!
# Registered code points

The protocol's numeric fields draw on registries that give some of the numbers a
mnemonic. Numbers without one are shown behind a generic word, such as `TYPE65280`.
-/

namespace StubResolver

structure CodeTable where
  kind : String
  generic : String
  entries : List (Nat × String)

namespace CodeTable

def mnemonic? (table : CodeTable) (code : Nat) : Option String :=
  (table.entries.find? fun entry => entry.1 == code).map Prod.snd

def code? (table : CodeTable) (mnemonic : String) : Option Nat :=
  (table.entries.find? fun entry => entry.2.toLower == mnemonic.toLower).map Prod.fst

def text (table : CodeTable) (code : Nat) : String :=
  match table.mnemonic? code with
  | some mnemonic => mnemonic
  | none => table.generic ++ toString code

def debugText (table : CodeTable) (code : Nat) : String :=
  match table.mnemonic? code with
  | some mnemonic => table.kind ++ "::" ++ mnemonic
  | none => table.kind ++ "(" ++ toString code ++ ")"

end CodeTable

end StubResolver
