import StubResolver.Name.Presentation
import StubResolver.Proofs.Name.Decompression
import StubResolver.Proofs.Name.Labels

/-!
# How names are come by

A name is made from labels, from a text, or from a
message. Whichever way, its labels have 1 to 255 octets.
-/

namespace StubResolver.Name

inductive Constructed : Name → Prop where
  | ofLabels {labels : List Label} {n : Name} (h : ofLabels labels = .ok n) : Constructed n
  | ofText {text : String} {n : Name} (h : ofText text = .ok n) : Constructed n
  | read {m : Octets} {pos next : Nat} {n : Name} (h : read.runAt m pos = (.ok n, next)) :
      Constructed n

theorem ofLabels_of_ofText {text : String} {n : Name} (h : ofText text = .ok n) :
    n = root ∨ ∃ labels, ofLabels labels = .ok n := by
  unfold ofText ofTextOctets at h
  split at h
  · exact .inl (Except.ok.inj h).symm
  · split at h
    · simp at h
    · rename_i labels hlabels
      split at h
      · rename_i name hname
        obtain rfl := Except.ok.inj h
        exact .inr ⟨labels, hname⟩
      all_goals simp at h

theorem LabelAt.length_bounds_of_octet {m : Octets} {pos next : Nat} {content : Label}
    (label : LabelAt m pos content next) : 1 ≤ content.length ∧ content.length ≤ 255 := by
  cases label with
  | short stands low high complete => exact ⟨by omega, by omega⟩
  | @oversized first second rest stands mark beyond complete =>
      have hfirst := UInt8.toNat_lt first
      exact ⟨by omega, by omega⟩

theorem Walk.length_bounds_of_octet {m : Octets} {pos stop : Nat} {labels : List Label}
    {behind : List Nat} (walk : Walk m pos labels behind stop) :
    ∀ l ∈ labels, 1 ≤ l.length ∧ l.length ≤ 255 := by
  induction walk with
  | here => simp
  | label first rest ih => exact List.forall_mem_cons.2 ⟨first.length_bounds_of_octet, ih⟩
  | pointer first rest ih => exact ih

theorem length_bounds_of_ofLabels {labels : List Label} {n : Name} (h : ofLabels labels = .ok n) :
    ∀ l ∈ n.labels, 1 ≤ l.length ∧ l.length ≤ 255 := by
  obtain ⟨hnone, rfl⟩ := ofLabels_eq_ok_iff.1 h
  intro l hl
  obtain ⟨hlow, hhigh⟩ := (labelsError?_eq_none_iff.1 hnone).1 l hl
  exact ⟨hlow, Nat.le_trans hhigh (by decide)⟩

theorem Constructed.length_bounds {n : Name} (h : Constructed n) :
    ∀ l ∈ n.labels, 1 ≤ l.length ∧ l.length ≤ 255 := by
  cases h with
  | ofLabels h => exact length_bounds_of_ofLabels h
  | ofText h =>
      rcases ofLabels_of_ofText h with rfl | ⟨labels, h⟩
      · simp [root]
      · exact length_bounds_of_ofLabels h
  | @read m pos next _ h =>
      obtain ⟨r, hreads, hrun⟩ := read_runAt m pos
      rw [hrun] at h
      cases hreads with
      | root walk few root =>
          simp only [leaves, Prod.mk.injEq, Except.ok.injEq] at h
          rw [← h.1]
          exact walk.length_bounds_of_octet
      | reserved | runsOut | tooMany | neverEnds => simp [leaves] at h

theorem Constructed.ne_nil {n : Name} (h : Constructed n) : ∀ l ∈ n.labels, l ≠ [] :=
  fun l hl => List.ne_nil_of_length_pos (h.length_bounds l hl).1

end StubResolver.Name
