import StubResolver.Name.Presentation
import StubResolver.Proofs.Text.Escape

/-!
# Texts of names

The octets of a name are escaped one by one, and lower case of the octets is lower
case of their text. Dots are not escaped, though: what the text of a name tells is
its labels in a row with dots between them, and no more.
-/

namespace StubResolver.Text

/-! ## Lower case -/

theorem toLower_escapeOctet :
    ∀ o : UInt8, (escapeOctet o).map Char.toLower = escapeOctet (lowerOctet o) :=
  forall_octet (by decide +kernel)

theorem toLower_escapeChars (os : List UInt8) :
    (escapeChars os).map Char.toLower = escapeChars (lowerOctets os) := by
  simp [escapeChars, lowerOctets, List.map_flatMap, List.flatMap_map, toLower_escapeOctet]

/-! ## Reading escapes -/

def digitOctet (n : Nat) : UInt8 := charOctet (Nat.digitChar n)

open Name in
abbrev EscapeForm (o : UInt8) : Prop :=
  ((escapeOctet o).map charOctet = [o] ∧ o ≠ backslash) ∨
    ((escapeOctet o).map charOctet = [backslash, o] ∧ isDigit o = false ∧ o ≠ dot) ∨
    (let a := digitOctet (o.toNat / 100)
     let b := digitOctet (o.toNat / 10 % 10)
     let c := digitOctet (o.toNat % 10)
     (escapeOctet o).map charOctet = [backslash, a, b, c] ∧ isDigit a = true ∧
      digitsOctet? a b c = some o ∧ o ≠ dot)

theorem escapeForm : ∀ o, EscapeForm o := forall_octet (by decide +kernel)

end StubResolver.Text

namespace StubResolver.Name

open Text

def tokenOf (o : UInt8) : Token := if o = dot then .dot else .octet o

theorem tokens_dot (rest : List UInt8) : tokens (dot :: rest) = .dot :: tokens rest := by
  rw [tokens.eq_def]
  simp

theorem tokens_plain {o : UInt8} (hdot : o ≠ dot) (hplain : o ≠ backslash) (rest : List UInt8) :
    tokens (o :: rest) = .octet o :: tokens rest := by
  rw [tokens.eq_def]
  simp [hdot, hplain]

theorem tokens_escaped {o : UInt8} (hdigit : isDigit o = false) (rest : List UInt8) :
    tokens (backslash :: o :: rest) = .octet o :: tokens rest := by
  rw [tokens.eq_def]
  simp [hdigit, backslash, dot]

theorem tokens_digits {a b c o : UInt8} (hdigit : isDigit a = true)
    (hvalue : digitsOctet? a b c = some o) (rest : List UInt8) :
    tokens (backslash :: a :: b :: c :: rest) = .octet o :: tokens rest := by
  rw [tokens.eq_def]
  simp [hdigit, hvalue, backslash, dot]

theorem tokens_escapeOctet (o : UInt8) (rest : List UInt8) :
    tokens ((escapeOctet o).map charOctet ++ rest) = tokenOf o :: tokens rest := by
  rcases escapeForm o with ⟨h, hplain⟩ | ⟨h, hdigit, hdot⟩ | ⟨h, hdigit, hvalue, hdot⟩
  · rw [h, List.singleton_append, tokenOf]
    split
    · subst o
      exact tokens_dot rest
    · exact tokens_plain ‹_› hplain rest
  · rw [h, tokenOf, if_neg hdot]
    exact tokens_escaped hdigit rest
  · rw [h, tokenOf, if_neg hdot]
    exact tokens_digits hdigit hvalue rest

theorem tokens_escapeChars (os : List UInt8) :
    tokens ((escapeChars os).map charOctet) = os.map tokenOf := by
  induction os with
  | nil => simp [escapeChars, tokens]
  | cons o os ih =>
      rw [escapeChars, List.flatMap_cons, List.map_append, tokens_escapeOctet]
      exact congrArg _ ih

/-! ## Labels in a row -/

/-- The labels in a row, with a dot between any two. -/
def dotted (n : Name) : List UInt8 := [dot].intercalate n.labels

theorem flatMap_append_dot {labels : List Label} (hne : labels ≠ []) :
    labels.flatMap (fun l => l ++ [dot]) = [dot].intercalate labels ++ [dot] := by
  induction labels with
  | nil => exact (hne rfl).elim
  | cons l rest ih =>
      cases rest with
      | nil => simp [List.intercalate_singleton]
      | cons l' rest =>
          rw [List.flatMap_cons, ih (List.cons_ne_nil _ _), List.intercalate_cons_cons,
            List.append_assoc, List.append_assoc, List.append_assoc]

theorem chars_eq_escapeChars (n : Name) : n.chars = escapeChars (n.dotted ++ [dot]) := by
  have hdot : escapeChars [dot] = ['.'] := by decide
  unfold chars isRoot dotted
  by_cases hroot : n.labels = []
  · rw [hroot, List.intercalate_nil, List.nil_append, hdot]
    rfl
  · rw [List.isEmpty_eq_false_iff.2 hroot, ← flatMap_append_dot hroot, ← hdot]
    simp [escapeChars, List.flatMap_assoc]

theorem canonicalText_eq_iff (n n' : Name) :
    n.canonicalText = n'.canonicalText ↔ lowerOctets n.dotted = lowerOctets n'.dotted := by
  unfold canonicalText
  rw [String.ofList_inj, chars_eq_escapeChars, chars_eq_escapeChars, toLower_escapeChars,
    toLower_escapeChars]
  constructor
  · intro h
    have heq := escapeChars_injective h
    simp only [lowerOctets, List.map_append] at heq ⊢
    exact List.append_cancel_right heq
  · intro h
    simp only [lowerOctets, List.map_append] at h ⊢
    rw [h]

/-! ## Names that are the same -/

theorem lowerOctet_eq_dot : ∀ o : UInt8, lowerOctet o = dot ↔ o = dot :=
  forall_octet (by decide +kernel)

theorem lowerOctets_intercalate (labels : List Label) :
    lowerOctets ([dot].intercalate labels) = [dot].intercalate (labels.map lowerOctets) := by
  induction labels with
  | nil => rfl
  | cons l rest ih =>
      cases rest with
      | nil => simp [List.intercalate_singleton]
      | cons l' rest =>
          rw [List.intercalate_cons_cons, List.map_cons, List.map_cons, List.intercalate_cons_cons,
            ← List.map_cons, ← ih]
          simp [lowerOctets, (lowerOctet_eq_dot dot).2 rfl]

theorem same_iff (n n' : Name) :
    n.same n' = true ↔ n.labels.map lowerOctets = n'.labels.map lowerOctets := by
  simp [same, caseFold]

theorem lowerOctets_dotted_of_same {n n' : Name} (h : n.same n' = true) :
    lowerOctets n.dotted = lowerOctets n'.dotted := by
  unfold dotted
  rw [lowerOctets_intercalate, lowerOctets_intercalate, (same_iff n n').1 h]

end StubResolver.Name
