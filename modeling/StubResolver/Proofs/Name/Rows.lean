import StubResolver.Name.Presentation
import StubResolver.Proofs.Name.Text
import StubResolver.Wire.Composer

/-!
# Putting a row of labels together

The tokens of a text spell labels if there is a dot behind each of them; only the
last dot may be missing. Reading such a text comes to making a name from the labels,
errors included: both stop at the first label that is empty or too long, and measure
them all only when each is good.
-/

namespace StubResolver

open Text

def NameTextError.ofCompose : ComposeError → NameTextError
  | .longLabel => .longLabel
  | .emptyLabel => .emptyLabel
  | _ => .longName

namespace Name

def rowTokens (ls : List Label) : List Token := ls.flatMap fun l => l.map .octet ++ [.dot]

theorem rowTokens_cons (l : Label) (ls : List Label) :
    rowTokens (l :: ls) = l.map .octet ++ .dot :: rowTokens ls := by
  simp [rowTokens]

theorem rowTokens_append (ls ls' : List Label) :
    rowTokens (ls ++ ls') = rowTokens ls ++ rowTokens ls' := List.flatMap_append

/-- The tokens of a row of labels; without its
last dot, the row has to end in an octet. -/
inductive Spells (ts : List Token) (ls : List Label) : Prop where
  | closed (row : ts = rowTokens ls)
  | unclosed {o : UInt8} (last : ts.getLast? = some (.octet o)) (row : ts ++ [.dot] = rowTokens ls)

variable {label : Label} {labels ls : List Label} {ts : List Token} {os : List UInt8}

/-! ## Assembling -/

theorem assemble_octets (l : Label) (hshort : label.length ≤ maxLabelLength) :
    assemble label labels (l.map .octet ++ ts) =
      if maxLabelLength < label.length + l.length then .error .longLabel
      else assemble (l.reverse ++ label) labels ts := by
  induction l generalizing label with
  | nil =>
      rw [List.length_nil, Nat.add_zero, if_neg (Nat.not_lt.2 hshort)]
      rfl
  | cons o l ih =>
      rw [List.map_cons, List.cons_append, assemble, List.length_cons]
      by_cases hfull : maxLabelLength ≤ label.length
      · rw [if_pos hfull, if_pos (by omega)]
      · rw [if_neg hfull, ih (by rw [List.length_cons]; omega), List.length_cons,
          List.reverse_cons, List.append_assoc, List.singleton_append]
        congr 2
        omega

theorem assemble_label (l : Label) :
    assemble [] labels (l.map .octet ++ .dot :: ts) =
      match labelError? l with
      | some e => .error (.ofCompose e)
      | none => assemble [] (l :: labels) ts := by
  rw [assemble_octets l (Nat.zero_le _), labelError?, List.length_nil, Nat.zero_add,
    List.append_nil, assemble, List.isEmpty_reverse, List.reverse_reverse]
  cases l with
  | nil => rfl
  | cons o l =>
      rw [List.isEmpty_cons, if_neg Bool.false_ne_true, if_neg Bool.false_ne_true]
      split <;> rfl

theorem assemble_rowTokens :
    assemble [] labels (rowTokens ls) =
      match ls.findSome? labelError? with
      | some e => .error (.ofCompose e)
      | none => .ok (labels.reverse ++ ls) := by
  induction ls generalizing labels with
  | nil => simp [rowTokens, assemble]
  | cons l ls ih =>
      rw [rowTokens_cons, assemble_label, List.findSome?_cons]
      cases labelError? l with
      | some e => rfl
      | none =>
          rw [ih]
          simp

theorem assemble_concat_dot (hlast : ts.getLast? ≠ some .dot) (hne : ts ≠ [] ∨ label ≠ []) :
    assemble label labels (ts ++ [.dot]) = assemble label labels ts := by
  -- whether the label under way is empty matters only where no token is left
  induction ts generalizing label labels with
  | nil =>
      have hlabel : label.isEmpty = false := List.isEmpty_eq_false_iff.2 (by simpa using hne)
      simp [assemble, hlabel]
  | cons t ts ih =>
      have hrest : ts.getLast? ≠ some .dot := by
        rintro h
        simp [List.getLast?_cons, h] at hlast
      cases t with
      | dot =>
          have hts : ts ≠ [] := by
            rintro rfl
            exact hlast rfl
          simp only [List.cons_append, assemble, ih hrest (.inl hts)]
      | octet o => simp only [List.cons_append, assemble, ih hrest (.inr (List.cons_ne_nil _ _))]
      | badEscape => rfl

theorem Spells.assemble_eq (h : Spells ts ls) :
    assemble [] [] ts =
      match ls.findSome? labelError? with
      | some e => .error (.ofCompose e)
      | none => .ok ls := by
  cases h with
  | closed row => rw [row, assemble_rowTokens, List.reverse_nil, List.nil_append]
  | unclosed last row =>
      have hne : ts ≠ [] := by
        rintro rfl
        simp at last
      rw [← assemble_concat_dot (by simp [last]) (.inl hne), row, assemble_rowTokens,
        List.reverse_nil, List.nil_append]

theorem ofTextOctets_of_spells (hlone : os ≠ [dot]) (h : Spells (tokens os) ls) :
    ofTextOctets os = (ofLabels ls).mapError .ofCompose := by
  unfold ofTextOctets ofLabels labelsError?
  rw [if_neg hlone, h.assemble_eq]
  cases hfind : ls.findSome? labelError? with
  | some e => rfl
  | none =>
      by_cases hlong : maxWireLength < labelsWireLength ls
      · simp only [hfind, if_pos hlong]
        rfl
      · simp only [hfind, if_neg hlong]
        rfl

theorem ofLabels_of_ofTextOctets {n : Name} (hlone : os ≠ [dot])
    (hspells : Spells (tokens os) ls) (h : ofTextOctets os = .ok n) : ofLabels ls = .ok n := by
  rw [ofTextOctets_of_spells hlone hspells] at h
  cases hlabels : ofLabels ls with
  | error e =>
      rw [hlabels] at h
      cases h
  | ok n' =>
      rw [hlabels] at h
      rw [Except.ok.inj h]

/-! ## Texts without escape sequences -/

theorem rowTokens_cutAt (os : List UInt8) :
    rowTokens (Writer.cutAt dot os) = os.map tokenOf ++ [.dot] := by
  induction os with
  | nil => rfl
  | cons o os ih =>
      rw [Writer.cutAt, List.map_cons, List.cons_append, ← ih, tokenOf]
      split
      · exact rowTokens_cons [] _
      · cases hcut : Writer.cutAt dot os with
        | nil => simp [hcut, rowTokens] at ih
        | cons l ls => simp [rowTokens_cons]

theorem tokens_of_plain (h : backslash ∉ os) : tokens os = os.map tokenOf := by
  induction os with
  | nil => simp [tokens]
  | cons o os ih =>
      obtain ⟨ho, hos⟩ := not_or.1 (mt List.mem_cons.2 h)
      rw [List.map_cons, ← ih hos, tokenOf]
      split
      · subst o
        exact tokens_dot os
      · exact tokens_plain ‹_› (Ne.symm ho) os

end Name

end StubResolver
