import StubResolver.Name.Reverse
import StubResolver.Proofs.Name.Labels
import StubResolver.Proofs.Name.Text

/-!
# The names of addresses

The name of an address is put together without a
check, but it is one that can be made from its labels.
-/

namespace StubResolver.Name

open Text

variable {labels : List Label}

theorem length_decimalLabel :
    ∀ o : UInt8, 1 ≤ (decimalLabel o).length ∧ (decimalLabel o).length ≤ 3 :=
  forall_octet (by decide +kernel)

theorem length_of_mem_nibbleLabels {o : UInt8} {l : Label} (h : l ∈ nibbleLabels o) :
    l.length = 1 := by
  simp only [nibbleLabels, List.mem_cons, List.not_mem_nil, or_false] at h
  rcases h with rfl | rfl <;> rfl

theorem labelsWireLength_le {k : Nat} (h : ∀ l ∈ labels, l.length ≤ k) :
    labelsWireLength labels ≤ labels.length * (k + 1) + 1 := by
  induction labels with
  | nil => simp [labelsWireLength]
  | cons l labels ih =>
      obtain ⟨hl, hlabels⟩ := List.forall_mem_cons.1 h
      have hrest := ih hlabels
      rw [labelsWireLength, List.length_cons, Nat.succ_mul]
      omega

theorem ofLabels_of_few {n : Name} {k : Nat}
    (h : ∀ l ∈ n.labels, 1 ≤ l.length ∧ l.length ≤ k) (hk : k ≤ maxLabelLength)
    (hfew : n.labels.length * (k + 1) + 1 ≤ maxWireLength) : ofLabels n.labels = .ok n := by
  have htotal := labelsWireLength_le fun l hl => (h l hl).2
  refine ofLabels_eq_ok_iff.2 ⟨labelsError?_eq_none_iff.2 ⟨fun l hl => ?_, ?_⟩, rfl⟩
  · exact ⟨(h l hl).1, Nat.le_trans (h l hl).2 hk⟩
  · exact Nat.le_trans htotal hfew

theorem ofLabels_reverse (ip : IpAddress) : ofLabels (reverse ip).labels = .ok (reverse ip) := by
  cases ip with
  | v4 ip =>
      have hcount : (reverse (.v4 ip)).labels.length = 6 := by simp [reverse]
      refine ofLabels_of_few (k := 7) (fun l hl => ?_) (by decide) (by rw [hcount]; decide)
      simp only [reverse, List.mem_append, List.mem_map, List.mem_cons, List.not_mem_nil,
        or_false] at hl
      rcases hl with ⟨o, -, rfl⟩ | rfl | rfl
      · have := length_decimalLabel o
        omega
      · decide
      · decide
  | v6 ip =>
      have hcount : (reverse (.v6 ip)).labels.length = 34 := by
        simp [reverse, nibbleLabels, List.length_flatMap, List.map_const']
      refine ofLabels_of_few (k := 4) (fun l hl => ?_) (by decide) (by rw [hcount]; decide)
      simp only [reverse, List.mem_append, List.mem_flatMap, List.mem_cons, List.not_mem_nil,
        or_false] at hl
      rcases hl with ⟨o, -, hl⟩ | rfl | rfl
      · have := length_of_mem_nibbleLabels hl
        omega
      · decide
      · decide

end StubResolver.Name
