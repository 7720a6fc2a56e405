import StubResolver.Proofs.Name.Compression

/-!
# How long names from messages are

The labels of a name that is read without an oversized label have 1 to 63 octets,
like all labels that can be written. The name as a whole may be longer than any that
can be made or written, as nothing counts its octets while they are read.
-/

namespace StubResolver.Name

/-- A pointer to nowhere, which is read as the
length and the first octet of an oversized label. -/
def OversizedAt (m : Octets) (pos : Nat) : Prop :=
  ∃ first second, StandsAt m pos [first, second] ∧ 0xC0 ≤ first.toNat ∧
    m.size ≤ pointerTarget first second

instance {m : Octets} {pos : Nat} : Decidable (OversizedAt m pos) :=
  match hfirst : m[pos]?, hsecond : m[pos + 1]? with
  | some first, some second =>
    decidable_of_iff (0xC0 ≤ first.toNat ∧ m.size ≤ pointerTarget first second) <| by
      simp [OversizedAt, standsAt_pair, hfirst, hsecond]
  | none, _ => isFalse <| by simp [OversizedAt, standsAt_pair, hfirst]
  | _, none => isFalse <| by simp [OversizedAt, standsAt_pair, hsecond]

def MeetsNoOversized (m : Octets) (pos : Nat) : Prop :=
  ∀ labels behind stop, Walk m pos labels behind stop → ¬ OversizedAt m stop

variable {m : Octets} {pos next stop : Nat} {labels : List Label} {behind : List Nat} {n : Name}

/-! ## Labels -/

theorem meetsNoOversized_of_forall (h : ∀ q < m.size, ¬ OversizedAt m q) :
    MeetsNoOversized m pos := by
  intro _ _ stop _ hoversized
  obtain ⟨first, second, stands, -, -⟩ := id hoversized
  have hle := stands.length_le (List.cons_ne_nil _ _)
  exact h stop (by simp at hle; omega) hoversized

theorem MeetsNoOversized.after (h : MeetsNoOversized m pos)
    (walk : Walk m pos labels behind stop) : MeetsNoOversized m stop :=
  fun _ _ _ further => h _ _ _ (walk.trans further)

theorem LabelAt.length_bounds {content : Label} (label : LabelAt m pos content next)
    (h : ¬ OversizedAt m pos) : 1 ≤ content.length ∧ content.length ≤ maxLabelLength := by
  cases label with
  | short stands low high complete => exact complete ▸ ⟨low, high⟩
  | @oversized first second rest stands mark beyond complete =>
      obtain ⟨hfirst, hrest⟩ := standsAt_cons_iff.1 stands
      exact (h ⟨first, second, standsAt_pair.2 ⟨hfirst, hrest.head⟩, mark, beyond⟩).elim

theorem Walk.length_bounds (walk : Walk m pos labels behind stop) (h : MeetsNoOversized m pos) :
    ∀ l ∈ labels, 1 ≤ l.length ∧ l.length ≤ maxLabelLength := by
  induction walk with
  | here => simp
  | label first rest ih =>
      have hlabel := first.length_bounds (h _ _ _ (.here _))
      exact List.forall_mem_cons.2 ⟨hlabel, ih (h.after (.label first (.here _)))⟩
  | pointer first rest ih => exact ih (h.after (.pointer first (.here _)))

/-! ## Whole names -/

theorem write_of_labelsError?_some {e : ComposeError} (h : labelsError? n.labels = some e)
    (c : Composer) : n.write.runOn c = (.error e, c) := by
  rw [Name.write, Writer.runOn_labels, h]

theorem read_labelOctets (h : ∀ l ∈ n.labels, 1 ≤ l.length ∧ l.length ≤ maxLabelLength)
    (before after : Octets) :
    read.runAt (before ++ Writer.labelOctets n.labels ++ after) before.size =
      (.ok n, before.size + n.wireLength) := by
  rw [Reader.runAt_eq_ok_iff, read_eq_ok_iff, wireLength, ← length_labelOctets]
  exact occupies_of_standsAt_labelOctets h (standsAt_append_append before after _)

/-- A name that is read without an oversized label has labels of 1 to 63 octets. If
all of it has no more than 255 octets, it is one that can be made from its labels; it
can be written where there is room for 255 octets, and is read back. Otherwise it can
neither be made nor written. -/
theorem read_valid_or_long (hread : read.runAt m pos = (.ok n, next))
    (hinside : MeetsNoOversized m pos) :
    (∀ l ∈ n.labels, 1 ≤ l.length ∧ l.length ≤ 63) ∧
    (n.wireLength ≤ 255 → ofLabels n.labels = .ok n ∧
      ∀ (capacity : Nat) (before after : Octets), before.size + 255 ≤ capacity →
        let written := before ++ Writer.labelOctets n.labels
        n.write.runOn ⟨capacity, before⟩ = (.ok (), ⟨capacity, written⟩) ∧
          read.runAt (written ++ after) before.size = (.ok n, before.size + n.wireLength)) ∧
    (255 < n.wireLength → ofLabels n.labels = .error .longName ∧
      ∀ c, n.write.runOn c = (.error .longName, c)) := by
  rw [Reader.runAt_eq_ok_iff, read_eq_ok_iff] at hread
  obtain ⟨behind, stop, walk, -, -, -⟩ := hread
  have hlabels := walk.length_bounds hinside
  have herror := labelsError?_of_length_bounds hlabels
  refine ⟨hlabels, fun hshort => ?_, fun hlong => ?_⟩
  · have hvalid : labelsError? n.labels = none := herror.trans (if_neg (Nat.not_lt.2 hshort))
    refine ⟨?_, fun capacity before after hroom => ⟨?_, ?_⟩⟩
    · unfold ofLabels
      rw [hvalid]
    · exact write_runOn hvalid (Nat.le_trans (Nat.add_le_add_left hshort _) hroom)
    · exact read_labelOctets hlabels before after
  · have hlongName : labelsError? n.labels = some .longName := herror.trans (if_pos hlong)
    refine ⟨?_, write_of_labelsError?_some hlongName⟩
    unfold ofLabels
    rw [hlongName]

/-- Behind the name `A.b` stands a label with a
pointer to that name, which makes three labels. -/
theorem read_three_labels :
    let m : Octets := #[1, 0x41, 1, 0x62, 0, 1, 0x63, 0xC0, 0]
    let n : Name := ⟨[[0x63], [0x41], [0x62]]⟩
    read.runAt m 5 = (.ok n, 9) ∧ MeetsNoOversized m 5 ∧ n.wireLength ≤ 255 ∧
      ofLabels n.labels = .ok n := by
  intro m n
  have hstands : StandsAt m 0 (labelFrames [[0x41], [0x62]]) := by decide
  have hframes : Walk m 0 [[0x41], [0x62]] [] 4 := walk_of_standsAt_labelFrames (by decide) hstands
  have hstands' : StandsAt m 5 (labelFrames [[0x63]]) := by decide
  have hlabel : Walk m 5 [[0x63]] [] 7 := walk_of_standsAt_labelFrames (by decide) hstands'
  have hpointer : PointerAt m 7 0 := pointerAt_of_standsAt (by decide) (by decide) (by decide)
  have hroot : RootAt m 4 := show StandsAt m 4 [0] by decide
  have hread : read.runAt m 5 = (.ok n, 9) :=
    ((hlabel.trans (.pointer hpointer hframes)).read_iff hroot).2 (by decide)
  have hinside : MeetsNoOversized m 5 := meetsNoOversized_of_forall (by decide)
  have hshort : n.wireLength ≤ 255 := by decide
  exact ⟨hread, hinside, hshort, ((read_valid_or_long hread hinside).2.1 hshort).1⟩

/-- Four labels of 63 octets are read without complaint,
though they make no name and cannot be written. -/
theorem read_four_long_labels :
    let l : Label := List.replicate 63 0x61
    let n : Name := ⟨[l, l, l, l]⟩
    let m : Octets := (#[] : Octets) ++ Writer.labelOctets n.labels ++ (#[] : Octets)
    read.runAt m 0 = (.ok n, 257) ∧ MeetsNoOversized m 0 ∧ 255 < n.wireLength ∧
      ofLabels n.labels = .error .longName ∧
      n.write.runOn (.empty 1024) = (.error .longName, .empty 1024) := by
  intro l n m
  have hlabels : ∀ l ∈ n.labels, 1 ≤ l.length ∧ l.length ≤ maxLabelLength := by decide
  have hlong : labelsError? n.labels = some .longName := by decide
  refine ⟨read_labelOctets hlabels #[] #[], meetsNoOversized_of_forall ?_, by decide, ?_, ?_⟩
  · decide +kernel
  · unfold ofLabels
    rw [hlong]
  · exact write_of_labelsError?_some hlong _

end StubResolver.Name
