import Mathlib.Algebra.GroupWithZero.Nat
import StubResolver.Proofs.Name.Labels
import StubResolver.Proofs.Name.Rows
import StubResolver.Proofs.Text.Utf8

/-!
# Which texts are names

A text is a name if it is empty, a lone dot, or spells a name. A spelling is a row of
labels with dots between them and maybe one at the end. Each label is spelled octet
by octet, in one of three ways: as it is, behind a backslash, or as three digits
behind one.
-/

namespace StubResolver.Name

open Text

/-! ## The grammar -/

/-- A way to write one octet of a label. -/
inductive TextUnit where
  | plain (o : UInt8) (notDot : o ≠ dot) (notBackslash : o ≠ backslash)
  | escaped (o : UInt8) (notDigit : isDigit o = false)
  | digits (a b c : UInt8) (areDigits : isDigit a ∧ isDigit b ∧ isDigit c)
      (inRange : digitValue a * 100 + digitValue b * 10 + digitValue c ≤ 255)

def TextUnit.written : TextUnit → List UInt8
  | plain o _ _ => [o]
  | escaped o _ => [backslash, o]
  | digits a b c _ _ => [backslash, a, b, c]

def TextUnit.octet : TextUnit → UInt8
  | plain o _ _ => o
  | escaped o _ => o
  | digits a b c _ _ => (digitValue a * 100 + digitValue b * 10 + digitValue c).toUInt8

/-- A name as a text spells it: one or more labels of 1 to 63 units, and room for an
octet in front of each of them and one behind the last among 255 octets. -/
structure Spelling where
  labels : List (List TextUnit)
  endsInDot : Bool
  labels_ne_nil : labels ≠ []
  length_bounds : ∀ us ∈ labels, 1 ≤ us.length ∧ us.length ≤ 63
  total_le : (labels.map fun us => us.length + 1).sum + 1 ≤ 255

def Spelling.written (s : Spelling) : List UInt8 :=
  [dot].intercalate (s.labels.map fun us => us.flatMap TextUnit.written) ++
    if s.endsInDot then [dot] else []

def Spelling.name (s : Spelling) : Name := ⟨s.labels.map fun us => us.map TextUnit.octet⟩

/-! ## Labels with a dot behind each -/

variable {os : List UInt8} {rows : List (List TextUnit)} {us : List TextUnit} {n : Name}

def rowOctets (rows : List (List TextUnit)) : List UInt8 :=
  rows.flatMap fun us => us.flatMap TextUnit.written ++ [dot]

def rowLabels (rows : List (List TextUnit)) : List Label := rows.map fun us => us.map TextUnit.octet

theorem rowOctets_eq_intercalate (hne : rows ≠ []) :
    rowOctets rows =
      [dot].intercalate (rows.map fun us => us.flatMap TextUnit.written) ++ [dot] := by
  rw [← flatMap_append_dot (mt List.map_eq_nil_iff.1 hne), List.flatMap_map]
  rfl

theorem rowOctets_concat (rows : List (List TextUnit)) (us : List TextUnit) :
    rowOctets (rows ++ [us]) = rowOctets rows ++ us.flatMap TextUnit.written ++ [dot] := by
  simp [rowOctets]

theorem Spelling.written_of_endsInDot {s : Spelling} (h : s.endsInDot = true) :
    s.written = rowOctets s.labels := by
  rw [rowOctets_eq_intercalate s.labels_ne_nil, written, if_pos h]

theorem Spelling.written_concat_dot {s : Spelling} (h : s.endsInDot = false) :
    s.written ++ [dot] = rowOctets s.labels := by
  rw [rowOctets_eq_intercalate s.labels_ne_nil, written, h, if_neg Bool.false_ne_true,
    List.append_nil]

/-! ## The tokens of units -/

theorem digitsOctet?_eq_some_iff {a b c o : UInt8} :
    digitsOctet? a b c = some o ↔
      (isDigit a ∧ isDigit b ∧ isDigit c) ∧
        digitValue a * 100 + digitValue b * 10 + digitValue c ≤ 255 ∧
        o = (digitValue a * 100 + digitValue b * 10 + digitValue c).toUInt8 := by
  simp only [digitsOctet?, Option.ite_none_right_eq_some, Option.some.injEq, and_assoc,
    @eq_comm _ o]

theorem tokens_written (u : TextUnit) (rest : List UInt8) :
    tokens (u.written ++ rest) = .octet u.octet :: tokens rest := by
  cases u with
  | plain o notDot notBackslash => exact tokens_plain notDot notBackslash rest
  | escaped o notDigit => exact tokens_escaped notDigit rest
  | digits a b c areDigits inRange =>
      exact tokens_digits areDigits.1 (digitsOctet?_eq_some_iff.2 ⟨areDigits, inRange, rfl⟩) rest

theorem tokens_flatMap_written (us : List TextUnit) (rest : List UInt8) :
    tokens (us.flatMap TextUnit.written ++ rest) =
      (us.map TextUnit.octet).map .octet ++ tokens rest := by
  induction us with
  | nil => rfl
  | cons u us ih =>
      rw [List.flatMap_cons, List.append_assoc, tokens_written, ih]
      rfl

theorem tokens_rowOctets (rows : List (List TextUnit)) (rest : List UInt8) :
    tokens (rowOctets rows ++ rest) = rowTokens (rowLabels rows) ++ tokens rest := by
  induction rows with
  | nil => rfl
  | cons us rows ih =>
      have hsplit : rowOctets (us :: rows) ++ rest =
          us.flatMap TextUnit.written ++ (dot :: (rowOctets rows ++ rest)) := by
        simp [rowOctets]
      have hlabels : rowLabels (us :: rows) = us.map TextUnit.octet :: rowLabels rows := rfl
      rw [hsplit, tokens_flatMap_written, tokens_dot, ih, hlabels, rowTokens_cons,
        List.append_assoc, List.cons_append]

theorem spells_rowOctets (rows : List (List TextUnit)) :
    Spells (tokens (rowOctets rows)) (rowLabels rows) := by
  refine .closed ?_
  have htokens := tokens_rowOctets rows []
  rwa [List.append_nil, tokens, List.append_nil] at htokens

theorem spells_rowOctets_append (rows : List (List TextUnit)) (hne : us ≠ []) :
    Spells (tokens (rowOctets rows ++ us.flatMap TextUnit.written)) (rowLabels (rows ++ [us])) := by
  have htokens : tokens (rowOctets rows ++ us.flatMap TextUnit.written) =
      rowTokens (rowLabels rows) ++ (us.map TextUnit.octet).map .octet := by
    have h := tokens_flatMap_written us []
    rw [List.append_nil, tokens, List.append_nil] at h
    rw [tokens_rowOctets, h]
  obtain ⟨init, u, rfl⟩ : ∃ init u, us = init ++ [u] :=
    ⟨us.dropLast, us.getLast hne, (List.dropLast_concat_getLast hne).symm⟩
  refine .unclosed (o := u.octet) ?_ ?_
  · rw [htokens]
    simp
  · have hlabels : rowLabels (rows ++ [init ++ [u]]) =
        rowLabels rows ++ [(init ++ [u]).map TextUnit.octet] := List.map_append
    rw [htokens, hlabels, rowTokens_append, rowTokens_cons, List.append_assoc]
    rfl

/-! ## The units of a text -/

def Splits (os : List UInt8) : Prop :=
  ∃ (rows : List (List TextUnit)) (us : List TextUnit),
    os = rowOctets rows ++ us.flatMap TextUnit.written

theorem Splits.cons_dot (h : Splits os) : Splits (dot :: os) := by
  obtain ⟨rows, us, rfl⟩ := h
  exact ⟨[] :: rows, us, rfl⟩

theorem Splits.append_written (h : Splits os) (u : TextUnit) : Splits (u.written ++ os) := by
  obtain ⟨rows, us, rfl⟩ := h
  cases rows with
  | nil => exact ⟨[], u :: us, rfl⟩
  | cons row rows => exact ⟨(u :: row) :: rows, us, by simp [rowOctets]⟩

theorem splits_of_tokens (h : .badEscape ∉ tokens os) : Splits os := by
  fun_induction tokens os with
  | case1 => exact ⟨[], [], rfl⟩
  | case2 rest ih => exact (ih (mt (List.mem_cons_of_mem _) h)).cons_dot
  | case3 o rest hdot hplain ih =>
      exact (ih (mt (List.mem_cons_of_mem _) h)).append_written (.plain o hdot hplain)
  | case5 o hdot hescape a rest hdigit ih =>
      obtain rfl := Classical.not_not.1 hescape
      have hnot : isDigit a = false := by simpa using hdigit
      exact (ih (mt (List.mem_cons_of_mem _) h)).append_written (.escaped a hnot)
  | case6 o hdot hescape a hdigit b c rest value hvalue ih =>
      obtain rfl := Classical.not_not.1 hescape
      obtain ⟨hdigits, hrange, -⟩ := digitsOctet?_eq_some_iff.1 hvalue
      exact (ih (mt (List.mem_cons_of_mem _) h)).append_written (.digits a b c hdigits hrange)
  -- nothing behind the backslash, digits above 255, and too few of them
  | case4 | case7 | case8 => exact (h (List.mem_singleton_self _)).elim

/-! ## Spellings and texts -/

theorem Spelling.spells (s : Spelling) : Spells (tokens s.written) s.name.labels := by
  cases hends : s.endsInDot with
  | true =>
      rw [written_of_endsInDot hends]
      exact spells_rowOctets s.labels
  | false =>
      obtain ⟨rows, us, hlabels⟩ : ∃ rows us, s.labels = rows ++ [us] :=
        ⟨_, _, (List.dropLast_concat_getLast s.labels_ne_nil).symm⟩
      have hne : us ≠ [] := List.ne_nil_of_length_pos (s.length_bounds us (by simp [hlabels])).1
      have hwritten := written_concat_dot hends
      rw [hlabels, rowOctets_concat] at hwritten
      rw [List.append_cancel_right hwritten, name, hlabels]
      exact spells_rowOctets_append rows hne

theorem length_bounds_rowLabels :
    (∀ l ∈ rowLabels rows, 1 ≤ l.length ∧ l.length ≤ maxLabelLength) ↔
      ∀ us ∈ rows, 1 ≤ us.length ∧ us.length ≤ maxLabelLength := by
  simp [rowLabels]

theorem labelsWireLength_eq_sum (labels : List Label) :
    labelsWireLength labels = (labels.map fun l => l.length + 1).sum + 1 := by
  induction labels with
  | nil => rfl
  | cons l labels ih =>
      rw [labelsWireLength, ih, List.map_cons, List.sum_cons, ← Nat.add_assoc]

theorem labelsWireLength_rowLabels (rows : List (List TextUnit)) :
    labelsWireLength (rowLabels rows) = (rows.map fun us => us.length + 1).sum + 1 := by
  rw [labelsWireLength_eq_sum]
  simp [rowLabels, Function.comp_def]

theorem Spelling.labelsError?_eq_none (s : Spelling) : labelsError? s.name.labels = none :=
  labelsError?_eq_none_iff.2
    ⟨length_bounds_rowLabels.2 s.length_bounds, labelsWireLength_rowLabels s.labels ▸ s.total_le⟩

theorem Spelling.ofTextOctets_written (s : Spelling) : ofTextOctets s.written = .ok s.name := by
  have hvalid := labelsError?_eq_none_iff.1 s.labelsError?_eq_none
  have hlone : s.written ≠ [dot] := by
    intro hdot
    have hassemble := s.spells.assemble_eq
    rw [hdot, findSome?_labelError?_eq_none_iff.2 hvalid.1] at hassemble
    simp [tokens, assemble] at hassemble
  rw [ofTextOctets_of_spells hlone s.spells,
    ofLabels_eq_ok_iff.2 ⟨s.labelsError?_eq_none, rfl⟩]
  rfl

theorem badEscape_not_mem_of_assemble {label : Label} {labels ls : List Label} {ts : List Token}
    (h : assemble label labels ts = .ok ls) : .badEscape ∉ ts := by
  induction ts generalizing label labels with
  | nil => exact List.not_mem_nil
  | cons t ts ih =>
      cases t with
      | dot =>
          rw [assemble] at h
          split at h
          · cases h
          · simpa using ih h
      | octet o =>
          rw [assemble] at h
          split at h
          · cases h
          · simpa using ih h
      | badEscape => cases h

theorem exists_spelling (hne : rows ≠ []) (endsInDot : Bool)
    (h : ofLabels (rowLabels rows) = .ok n) :
    ∃ s : Spelling, s.labels = rows ∧ s.endsInDot = endsInDot ∧ n = s.name := by
  obtain ⟨hnone, rfl⟩ := ofLabels_eq_ok_iff.1 h
  obtain ⟨hbounds, htotal⟩ := labelsError?_eq_none_iff.1 hnone
  rw [labelsWireLength_rowLabels] at htotal
  exact ⟨⟨rows, endsInDot, hne, length_bounds_rowLabels.1 hbounds, htotal⟩, rfl, rfl, rfl⟩

theorem exists_spelling_of_ofTextOctets (hne : os ≠ []) (hlone : os ≠ [dot])
    (h : ofTextOctets os = .ok n) : ∃ s : Spelling, os = s.written ∧ n = s.name := by
  have hescapes : .badEscape ∉ tokens os := by
    cases hassemble : assemble [] [] (tokens os) with
    | error e => simp [ofTextOctets, hlone, hassemble] at h
    | ok ls => exact badEscape_not_mem_of_assemble hassemble
  obtain ⟨rows, us, rfl⟩ := splits_of_tokens hescapes
  -- with nothing behind the last dot, that dot is the one that may end a name
  by_cases hus : us = []
  · subst us
    rw [List.flatMap_nil, List.append_nil] at *
    have hrows : rows ≠ [] := by
      rintro rfl
      exact hne rfl
    have hlabels := ofLabels_of_ofTextOctets hlone (spells_rowOctets rows) h
    obtain ⟨s, rfl, hends, rfl⟩ := exists_spelling hrows true hlabels
    exact ⟨s, (Spelling.written_of_endsInDot hends).symm, rfl⟩
  · have hlabels := ofLabels_of_ofTextOctets hlone (spells_rowOctets_append rows hus) h
    obtain ⟨s, hs, hends, rfl⟩ :=
      exists_spelling (List.append_ne_nil_of_right_ne_nil _ (List.cons_ne_nil _ _)) false hlabels
    have hwritten := Spelling.written_concat_dot hends
    rw [hs, rowOctets_concat] at hwritten
    exact ⟨s, (List.append_cancel_right hwritten).symm, rfl⟩

theorem octetsOf_eq_dot_iff {text : String} : octetsOf text = [dot] ↔ text = "." := by
  have hdot : octetsOf "." = [dot] := by
    rw [octetsOf_eq_flatMap]
    rfl
  rw [← hdot, octetsOf_inj]

theorem ofTextOctets_eq_ok_iff :
    ofTextOctets os = .ok n ↔
      (os = [] ∨ os = [dot]) ∧ n = root ∨ ∃ s : Spelling, os = s.written ∧ n = s.name := by
  have hroot : ofTextOctets [] = .ok root ∧ ofTextOctets [dot] = .ok root := ⟨rfl, rfl⟩
  constructor
  · intro h
    by_cases hne : os = []
    · rw [hne, hroot.1, Except.ok.injEq] at h
      exact .inl ⟨.inl hne, h.symm⟩
    · by_cases hlone : os = [dot]
      · rw [hlone, hroot.2, Except.ok.injEq] at h
        exact .inl ⟨.inr hlone, h.symm⟩
      · exact .inr (exists_spelling_of_ofTextOctets hne hlone h)
  · rintro (⟨rfl | rfl, rfl⟩ | ⟨s, rfl, rfl⟩)
    · exact hroot.1
    · exact hroot.2
    · exact s.ofTextOctets_written

/-- A text is read as a name exactly if it is empty or a lone dot, which are the
root, or if it spells that name. In particular no label is ever empty or too long. -/
theorem ofText_eq_ok_iff_spelled (text : String) (n : Name) :
    (ofText text = .ok n ↔
      (text = "" ∨ text = ".") ∧ n = root ∨
        ∃ s : Spelling, octetsOf text = s.written ∧ n = s.name) ∧
    (ofText text = .ok n → ∀ l ∈ n.labels, 1 ≤ l.length ∧ l.length ≤ 63) := by
  rw [← octetsOf_eq_nil_iff, ← octetsOf_eq_dot_iff]
  refine ⟨ofTextOctets_eq_ok_iff, fun h => ?_⟩
  rcases ofTextOctets_eq_ok_iff.1 h with ⟨-, rfl⟩ | ⟨s, -, rfl⟩
  · simp [root]
  · exact (labelsError?_eq_none_iff.1 s.labelsError?_eq_none).1

end StubResolver.Name
