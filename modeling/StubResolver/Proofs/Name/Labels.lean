import StubResolver.Name.Basic

/-!
# What is wrong with labels

Labels make a name if each has 1 to 63 octets and
together they take no more than 255 on the wire.
-/

namespace StubResolver.Name

variable {l : Label} {labels : List Label} {n : Name}

theorem labelError?_eq_none_iff :
    labelError? l = none ↔ 1 ≤ l.length ∧ l.length ≤ maxLabelLength := by
  cases l with
  | nil => simp [labelError?]
  | cons o l => simp [labelError?]

theorem findSome?_labelError?_eq_none_iff :
    labels.findSome? labelError? = none ↔
      ∀ l ∈ labels, 1 ≤ l.length ∧ l.length ≤ maxLabelLength := by
  simp only [List.findSome?_eq_none_iff, labelError?_eq_none_iff]

theorem labelsError?_of_length_bounds
    (h : ∀ l ∈ labels, 1 ≤ l.length ∧ l.length ≤ maxLabelLength) :
    labelsError? labels =
      if maxWireLength < labelsWireLength labels then some .longName else none := by
  rw [labelsError?, findSome?_labelError?_eq_none_iff.2 h]

theorem labelsError?_eq_none_iff :
    labelsError? labels = none ↔
      (∀ l ∈ labels, 1 ≤ l.length ∧ l.length ≤ maxLabelLength) ∧
        labelsWireLength labels ≤ maxWireLength := by
  constructor
  · intro h
    have hlabels : ∀ l ∈ labels, 1 ≤ l.length ∧ l.length ≤ maxLabelLength := by
      rw [← findSome?_labelError?_eq_none_iff]
      cases hfind : labels.findSome? labelError? with
      | some e => simp [labelsError?, hfind] at h
      | none => rfl
    rw [labelsError?_of_length_bounds hlabels] at h
    exact ⟨hlabels, by simpa using h⟩
  · rintro ⟨hlabels, htotal⟩
    rw [labelsError?_of_length_bounds hlabels, if_neg (Nat.not_lt.2 htotal)]

theorem labelError?_eq_some {e : ComposeError} (h : labelError? l = some e) :
    e = .emptyLabel ∨ e = .longLabel := by
  unfold labelError? at h
  split at h
  · exact .inl (Option.some.inj h).symm
  · split at h
    · exact .inr (Option.some.inj h).symm
    · cases h

theorem labelsError?_eq_some {e : ComposeError} (h : labelsError? labels = some e) :
    e = .emptyLabel ∨ e = .longLabel ∨ e = .longName := by
  unfold labelsError? at h
  split at h
  · rename_i e' hfind
    obtain ⟨l, -, hl⟩ := List.exists_of_findSome?_eq_some hfind
    obtain rfl := Option.some.inj h
    rcases labelError?_eq_some hl with rfl | rfl <;> simp
  · split at h
    · exact .inr (.inr (Option.some.inj h).symm)
    · cases h

theorem ofLabels_eq_ok_iff :
    ofLabels labels = .ok n ↔ labelsError? labels = none ∧ n = ⟨labels⟩ := by
  unfold ofLabels
  cases labelsError? labels <;> simp [eq_comm]

/-! ## Labels none of which is empty -/

theorem findSome?_labelError?_of_ne_nil (h : ∀ l ∈ labels, l ≠ []) :
    labels.findSome? labelError? =
      if ∃ l ∈ labels, maxLabelLength < l.length then some .longLabel else none := by
  have herror : ∀ l ∈ labels, labelError? l =
      if maxLabelLength < l.length then some .longLabel else none := fun l hl => by
    rw [labelError?, List.isEmpty_eq_false_iff.2 (h l hl), if_neg Bool.false_ne_true]
  split
  · rename_i hlong
    obtain ⟨l, hl, hlong⟩ := hlong
    cases hfind : labels.findSome? labelError? with
    | some e =>
        obtain ⟨l', hl', he⟩ := List.exists_of_findSome?_eq_some hfind
        rw [herror l' hl'] at he
        split at he
        · exact he.symm
        · cases he
    | none =>
        have hnone := List.findSome?_eq_none_iff.1 hfind l hl
        rw [herror l hl, if_pos hlong] at hnone
        cases hnone
  · rename_i hshort
    rw [List.findSome?_eq_none_iff]
    intro l hl
    rw [herror l hl, if_neg fun hlong => hshort ⟨l, hl, hlong⟩]

theorem labelsError?_of_ne_nil (h : ∀ l ∈ labels, l ≠ []) :
    labelsError? labels =
      if ∃ l ∈ labels, maxLabelLength < l.length then some .longLabel
      else if maxWireLength < labelsWireLength labels then some .longName else none := by
  unfold labelsError?
  rw [findSome?_labelError?_of_ne_nil h]
  by_cases hlong : ∃ l ∈ labels, maxLabelLength < l.length
  · rw [if_pos hlong, if_pos hlong]
  · rw [if_neg hlong, if_neg hlong]

end StubResolver.Name
