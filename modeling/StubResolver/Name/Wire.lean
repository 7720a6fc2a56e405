import StubResolver.Name.Basic
import StubResolver.Wire.Reader

/-!
# Reading names from messages

A name in a message is a row of labels that ends in a zero octet or in a pointer to
more labels elsewhere in the message. A first octet of 192 or more begins a pointer,
but where the pointer's target would lie at or behind the end of the message, that
octet is the length of an oversized label. Reading is bounded: no target is followed
twice, and no more than 127 are followed at all.
-/

namespace StubResolver.Name

def maxPointers : Nat := 127

inductive Piece where
  | root (next : Nat)
  | label (content : Label) (next : Nat)
  | pointer (target next : Nat)

def labelAt (m : Octets) (start length : Nat) : Except ParseError Piece :=
  if start + length ≤ m.size then
    .ok (.label (m.extract start (start + length)).toList (start + length))
  else .error .shortInput

def pieceAt (m : Octets) (pos : Nat) : Except ParseError Piece :=
  match m[pos]? with
  | none => .error .shortInput
  | some first =>
    if first = 0 then .ok (.root (pos + 1))
    else if first < 0x40 then labelAt m (pos + 1) first.toNat
    else if first < 0xC0 then .error (.malformedName .labelType)
    else
      match m[pos + 1]? with
      | none => .error .shortInput
      | some second =>
        let target := (first.toNat - 0xC0) * 256 + second.toNat
        if target < m.size then .ok (.pointer target (pos + 2))
        else labelAt m (pos + 1) first.toNat

theorem lt_of_pieceAt_label {m : Octets} {pos next : Nat} {content : Label}
    (h : pieceAt m pos = .ok (.label content next)) : pos < next ∧ next ≤ m.size := by
  simp only [pieceAt, labelAt] at h
  repeat' split at h
  all_goals cases h
  all_goals omega

/-- Reads a name from `pos` on. `followed` are the targets of the pointers met so
far, `resume` is the position behind the first of them, and `labels` are the labels
met so far, last first. The result is the name and the position behind it. -/
def walk (m : Octets) (pos : Nat) (followed : List Nat) (resume : Option Nat)
    (labels : List Label) : Except ParseError (Name × Nat) :=
  match _h : pieceAt m pos with
  | .error e => .error e
  | .ok (.root next) => .ok (⟨labels.reverse⟩, resume.getD next)
  | .ok (.label content next) => walk m next followed resume (content :: labels)
  | .ok (.pointer target next) =>
    if maxPointers ≤ followed.length then .error (.malformedName .tooManyPointers)
    else if target ∈ followed then .error (.malformedName .pointerLoop)
    else walk m target (target :: followed) (some (resume.getD next)) labels
termination_by (maxPointers - followed.length, m.size - pos)
decreasing_by
  · have := lt_of_pieceAt_label _h
    exact Prod.Lex.right _ (by omega)
  · exact Prod.Lex.left _ _ (by simp only [List.length_cons]; omega)

/-- Takes a name; a name that cannot be read leaves the position where it was. -/
def read : Reader Name := fun m pos =>
  match walk m pos [] none [] with
  | .ok (name, next) => .ok name next
  | .error e => .error e pos

end StubResolver.Name
