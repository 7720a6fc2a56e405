import StubResolver.Text.Escape

/-!
# Reading presentation format back

Escaped text is a row of units, one for each octet, and what a unit stands for can be
read off it whatever follows. So octets are determined by their text, also in front
of other text that does not begin as a unit may.
-/

namespace StubResolver.Text

theorem forall_octet {p : UInt8 → Prop} (h : ∀ i : Fin 256, p (UInt8.ofFin i)) (o : UInt8) :
    p o := by
  simpa using h o.toFin

def charOctet (c : Char) : UInt8 := c.toNat.toUInt8

theorem charOctet_ofNat : ∀ o : UInt8, charOctet (Char.ofNat o.toNat) = o :=
  forall_octet (by decide +kernel)

def decimalOctet? (a b c : Char) : Option UInt8 :=
  let value := (a.toNat - 48) * 100 + (b.toNat - 48) * 10 + (c.toNat - 48)
  if a.isDigit ∧ b.isDigit ∧ c.isDigit ∧ value ≤ 255 then some value.toUInt8 else none

theorem decimalOctet?_threeDigits : ∀ o : UInt8,
    decimalOctet? (Nat.digitChar (o.toNat / 100 % 10)) (Nat.digitChar (o.toNat / 10 % 10))
      (Nat.digitChar (o.toNat % 10)) = some o :=
  forall_octet (by decide +kernel)

/-- Reads a backslash and three digits as an octet, a backslash and another character
as that character, and anything else as itself. -/
def unescape : List Char → List UInt8
  | '\\' :: a :: b :: c :: rest =>
    match decimalOctet? a b c with
    | some o => o :: unescape rest
    | none => charOctet a :: unescape (b :: c :: rest)
  | '\\' :: a :: rest => charOctet a :: unescape rest
  | c :: rest => charOctet c :: unescape rest
  | [] => []

/-! ## Units -/

def IsPrintable (c : Char) : Prop := ' ' ≤ c ∧ c ≤ '~'

instance (c : Char) : Decidable (IsPrintable c) := inferInstanceAs (Decidable (_ ∧ _))

theorem IsPrintable.toNat_lt {c : Char} (h : IsPrintable c) : c.toNat < 128 :=
  Nat.lt_of_le_of_lt (UInt32.le_iff_toNat_le.1 (Char.le_def.1 h.2)) (by decide)

def IsSpecial (c : Char) : Prop := c = ';' ∨ c = '\\' ∨ c = '"'

inductive EscapeUnit : UInt8 → List Char → Prop where
  | plain {c : Char} (hprintable : IsPrintable c) (hspecial : ¬ IsSpecial c) :
      EscapeUnit (charOctet c) [c]
  | escaped {c : Char} (hspecial : IsSpecial c) : EscapeUnit (charOctet c) ['\\', c]
  | decimal {o : UInt8} {a b c : Char} (hvalue : decimalOctet? a b c = some o) :
      EscapeUnit o ['\\', a, b, c]

theorem isDigit_of_decimalOctet? {a b c : Char} {o : UInt8} (h : decimalOctet? a b c = some o) :
    a.isDigit = true ∧ b.isDigit = true ∧ c.isDigit = true := by
  unfold decimalOctet? at h
  dsimp only at h
  split at h
  · rename_i hdigits
    exact ⟨hdigits.1, hdigits.2.1, hdigits.2.2.1⟩
  · contradiction

theorem decimalOctet?_eq_none {a : Char} (ha : a.isDigit = false) (b c : Char) :
    decimalOctet? a b c = none := by
  simp [decimalOctet?, ha]

theorem isPrintable_ofNat : ∀ o : UInt8, 32 ≤ o ∧ o ≤ 126 → IsPrintable (Char.ofNat o.toNat) :=
  forall_octet (by decide +kernel)

theorem isPrintable_of_isDigit {c : Char} (h : c.isDigit = true) : IsPrintable c := by
  simp only [Char.isDigit, Bool.and_eq_true, decide_eq_true_eq, UInt32.le_iff_toNat_le,
    ge_iff_le] at h
  simp only [IsPrintable, Char.le_def, UInt32.le_iff_toNat_le]
  exact ⟨Nat.le_trans (by decide) h.1, Nat.le_trans h.2 (by decide)⟩

theorem IsSpecial.isPrintable {c : Char} (h : IsSpecial c) : IsPrintable c := by
  rcases h with rfl | rfl | rfl <;> decide

theorem IsSpecial.isDigit_eq_false {c : Char} (h : IsSpecial c) : c.isDigit = false := by
  rcases h with rfl | rfl | rfl <;> rfl

namespace EscapeUnit

variable {o : UInt8} {cs : List Char}

theorem escapeOctet (o : UInt8) : EscapeUnit o (escapeOctet o) := by
  unfold Text.escapeOctet
  dsimp only
  split
  · rename_i hspecial
    have h := EscapeUnit.escaped hspecial
    rwa [charOctet_ofNat] at h
  · rename_i hspecial
    split
    · rename_i hprintable
      have h := EscapeUnit.plain (isPrintable_ofNat o hprintable) hspecial
      rwa [charOctet_ofNat] at h
    · exact .decimal (decimalOctet?_threeDigits o)

theorem unescape_append (h : EscapeUnit o cs) (rest : List Char) :
    unescape (cs ++ rest) = o :: unescape rest := by
  cases h with
  | @plain c _ hspecial =>
      have hbackslash : c ≠ '\\' := fun hc => hspecial (.inr (.inl hc))
      simp [unescape, hbackslash]
  | escaped hspecial =>
      -- What follows may be digits, but the character behind the backslash is none.
      have hdigit := hspecial.isDigit_eq_false
      match rest with
      | [] => simp [unescape]
      | [b] => simp [unescape]
      | b :: c :: rest => simp [unescape, decimalOctet?_eq_none hdigit]
  | decimal hvalue => simp [unescape, hvalue]

theorem isPrintable (h : EscapeUnit o cs) : ∀ c ∈ cs, IsPrintable c := by
  cases h with
  | plain hprintable _ => simpa using hprintable
  | escaped hspecial => simpa using And.intro (by decide) hspecial.isPrintable
  | decimal hvalue =>
      obtain ⟨ha, hb, hc⟩ := isDigit_of_decimalOctet? hvalue
      simp only [List.forall_mem_cons]
      exact ⟨by decide, isPrintable_of_isDigit ha, isPrintable_of_isDigit hb,
        isPrintable_of_isDigit hc, List.forall_mem_nil _⟩

theorem append_ne_quote (h : EscapeUnit o cs) (rest rest' : List Char) :
    cs ++ rest ≠ '"' :: rest' := by
  intro heq
  cases h with
  | plain _ hspecial => exact hspecial (.inr (.inr (List.cons.inj heq).1))
  | escaped => simp at heq
  | decimal => simp at heq

end EscapeUnit

/-! ## Escaped text -/

/-- A row of units: each double quote, semicolon and
backslash in it belongs to an escape sequence. -/
inductive Escaped : List Char → Prop where
  | nil : Escaped []
  | unit {o : UInt8} {cs rest : List Char} (h : EscapeUnit o cs) (hrest : Escaped rest) :
      Escaped (cs ++ rest)

theorem Escaped.isPrintable {cs : List Char} (h : Escaped cs) : ∀ c ∈ cs, IsPrintable c := by
  induction h with
  | nil => simp
  | unit h _ ih => exact List.forall_mem_append.2 ⟨h.isPrintable, ih⟩

@[simp] theorem escapeChars_nil : escapeChars [] = [] := rfl

@[simp] theorem escapeChars_cons (o : UInt8) (os : List UInt8) :
    escapeChars (o :: os) = escapeOctet o ++ escapeChars os := rfl

theorem escaped_escapeChars (os : List UInt8) : Escaped (escapeChars os) := by
  induction os with
  | nil => exact .nil
  | cons o os ih => exact .unit (.escapeOctet o) ih

theorem unescape_escapeChars (os : List UInt8) : unescape (escapeChars os) = os := by
  induction os with
  | nil => simp [unescape]
  | cons o os ih => rw [escapeChars_cons, (EscapeUnit.escapeOctet o).unescape_append, ih]

theorem escapeChars_injective {os os' : List UInt8} (h : escapeChars os = escapeChars os') :
    os = os' := by
  rw [← unescape_escapeChars os, h, unescape_escapeChars]

/-! ## Escaped text in front of other text -/

theorem escapeOctet_append_inj {o o' : UInt8} {rest rest' : List Char}
    (h : escapeOctet o ++ rest = escapeOctet o' ++ rest') : o = o' ∧ rest = rest' := by
  have hread := congrArg unescape h
  rw [(EscapeUnit.escapeOctet o).unescape_append, (EscapeUnit.escapeOctet o').unescape_append]
    at hread
  obtain rfl := (List.cons.inj hread).1
  exact ⟨rfl, List.append_cancel_left h⟩

theorem escapeChars_append_quote_inj {os os' : List UInt8} {rest rest' : List Char}
    (h : escapeChars os ++ '"' :: rest = escapeChars os' ++ '"' :: rest') :
    os = os' ∧ rest = rest' := by
  induction os generalizing os' with
  | nil =>
      cases os' with
      | nil => exact ⟨rfl, (List.cons.inj h).2⟩
      | cons o' os' =>
          rw [escapeChars_cons, List.append_assoc] at h
          exact ((EscapeUnit.escapeOctet o').append_ne_quote _ _ h.symm).elim
  | cons o os ih =>
      rw [escapeChars_cons, List.append_assoc] at h
      cases os' with
      | nil => exact ((EscapeUnit.escapeOctet o).append_ne_quote _ _ h).elim
      | cons o' os' =>
          rw [escapeChars_cons, List.append_assoc] at h
          obtain ⟨rfl, htail⟩ := escapeOctet_append_inj h
          obtain ⟨rfl, hrest⟩ := ih htail
          exact ⟨rfl, hrest⟩

end StubResolver.Text
