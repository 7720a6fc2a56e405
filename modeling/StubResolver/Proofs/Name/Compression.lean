import StubResolver.Proofs.Name.Constructed
import StubResolver.Proofs.Name.Placement
import StubResolver.Proofs.Wire.Writing

/-!
# Names in compressed form

A name that is written out may be pointed into: labels elsewhere in the message, with
a pointer to one of its label boundaries behind them, stand for themselves and what
follows that boundary. Such labels may be pointed into again. Reading gives back the
labels of each of these names, as long as no more than 127 pointers lead to their
root.
-/

namespace StubResolver.Name

def pointerOctets (target : Nat) : List UInt8 :=
  [(0xC0 + target / 0x100).toUInt8, target.toUInt8]

/-- What stands at `pos` is a name that ends, by way of so many pointers, in the name
`n` that is written out at `start`; `next` is the position behind what stands in
place. -/
inductive Compressed (m : Octets) (n : Name) (start : Nat) :
    (pos : Nat) → List Label → (pointers next : Nat) → Prop where
  | boundary {passed labels : List Label} (split : n.labels = passed ++ labels) :
      Compressed m n start (start + (labelFrames passed).length) labels 0 (start + n.wireLength)
  /-- A label boundary of labels that end in a pointer. -/
  | pointing {place target : Nat} {passed front labels : List Label} {pointers next : Nat}
      (short : ∀ l ∈ passed ++ front, 1 ≤ l.length ∧ l.length ≤ maxLabelLength)
      (near : target < 0x4000)
      (stands : StandsAt m place (labelFrames (passed ++ front) ++ pointerOctets target))
      (rest : Compressed m n start target labels pointers next) :
      Compressed m n start (place + (labelFrames passed).length) (front ++ labels) (pointers + 1)
        (place + (labelFrames (passed ++ front)).length + 2)

variable {m : Octets} {n : Name} {start pos target pointers next : Nat} {labels : List Label}

theorem pointerAt_of_standsAt (hnear : target < 0x4000) (hwithin : target < m.size)
    (h : StandsAt m pos (pointerOctets target)) : PointerAt m pos target := by
  have hfirst : (0xC0 + target / 0x100).toUInt8.toNat = 0xC0 + target / 0x100 := by
    rw [Nat.toUInt8, UInt8.toNat_ofNat']
    omega
  have hsecond : target.toUInt8.toNat = target % 0x100 := UInt8.toNat_ofNat'
  have htarget : pointerTarget (0xC0 + target / 0x100).toUInt8 target.toUInt8 = target := by
    rw [pointerTarget, hfirst, hsecond]
    omega
  have hpointer := PointerAt.intro h (by rw [hfirst]; omega) (by rwa [htarget])
  rwa [htarget] at hpointer

theorem Compressed.walk (h : Compressed m n start pos labels pointers next)
    (hshort : ∀ l ∈ n.labels, 1 ≤ l.length ∧ l.length ≤ maxLabelLength)
    (hstands : StandsAt m start (Writer.labelOctets n.labels)) :
    ∃ behind stop, Walk m pos labels behind stop ∧ RootAt m stop ∧ behind.length = pointers ∧
      next = behind.headD (stop + 1) := by
  induction h with
  | @boundary passed labels split =>
      have hoctets : Writer.labelOctets n.labels =
          labelFrames passed ++ Writer.labelOctets labels := by
        rw [split]
        exact (congrArg (· ++ [0]) (labelFrames_append passed labels)).trans
          (List.append_assoc _ _ _)
      rw [hoctets, standsAt_append_iff] at hstands
      rw [split, List.forall_mem_append] at hshort
      obtain ⟨stop, walk, root, hstop⟩ := walk_of_standsAt_labelOctets hshort.2 hstands.2
      refine ⟨[], stop, walk, root, rfl, ?_⟩
      rw [List.headD_nil, hstop, wireLength, ← length_labelOctets, hoctets, List.length_append,
        Nat.add_assoc]
  | @pointing place target passed front labels pointers next short near stands rest ih =>
      obtain ⟨behind, stop, walk, root, hpointers, -⟩ := ih
      have hwithin : target < m.size := by
        obtain ⟨hlt, hle⟩ := walk.headD_bounds root
        exact Nat.lt_of_lt_of_le hlt hle
      obtain ⟨hframes, hpointer⟩ := standsAt_append_iff.1 stands
      rw [labelFrames_append, standsAt_append_iff] at hframes
      rw [labelFrames_append, List.length_append, ← Nat.add_assoc] at hpointer ⊢
      have hfront := walk_of_standsAt_labelFrames (List.forall_mem_append.1 short).2 hframes.2
      have hfollow := Walk.pointer (pointerAt_of_standsAt near hwithin hpointer) walk
      refine ⟨_, stop, hfront.trans hfollow, root, ?_, rfl⟩
      rw [List.nil_append, List.length_cons, hpointers]

theorem Walk.read_iff {behind : List Nat} {stop : Nat} (walk : Walk m pos labels behind stop)
    (root : RootAt m stop) :
    read.runAt m pos = (.ok ⟨labels⟩, behind.headD (stop + 1)) ↔ behind.length ≤ maxPointers := by
  rw [Reader.runAt_eq_ok_iff, read_eq_ok_iff]
  constructor
  · rintro ⟨behind', stop', walk', few, root', -⟩
    have halts : HaltsAfter m (max behind.length behind'.length) behind stop :=
      ⟨Nat.le_max_left _ _, .inl root.stuck⟩
    obtain ⟨-, rfl, -⟩ := walk.unique halts walk' ⟨Nat.le_max_right _ _, .inl root'.stuck⟩
    exact few
  · intro few
    exact ⟨behind, stop, walk, few, root, rfl⟩

theorem write_runOn (hvalid : labelsError? n.labels = none) {capacity : Nat} {before : Octets}
    (hroom : before.size + n.wireLength ≤ capacity) :
    n.write.runOn ⟨capacity, before⟩ =
      (.ok (), ⟨capacity, before ++ Writer.labelOctets n.labels⟩) := by
  rw [wireLength, ← length_labelOctets] at hroom
  rw [write, Writer.runOn_labels, hvalid]
  exact if_pos hroom

theorem standsAt_append_append (before after : Octets) (os : List UInt8) :
    StandsAt (before ++ os ++ after) before.size os := by
  unfold StandsAt
  rw [Array.toList_append, Array.toList_appendList, List.append_assoc, ← Array.length_toList,
    List.drop_left]
  exact List.prefix_append _ _

/-- A valid name that is written behind some octets and before others is read back as
it is. So is each name in the message that leads into it by pointers, up to 127 of
them: as the labels that it has in place and the labels where it leads to. The reader
then stands behind the root of the one, and right behind the first pointer of the
other. -/
theorem read_undoes_compression (n : Name) (before after : Octets) (capacity : Nat)
    (hvalid : labelsError? n.labels = none) (hroom : before.size + n.wireLength ≤ capacity) :
    let written := before ++ Writer.labelOctets n.labels
    let m := written ++ after
    n.write.runOn ⟨capacity, before⟩ = (.ok (), ⟨capacity, written⟩) ∧
      read.runAt m before.size = (.ok n, before.size + n.wireLength) ∧
      ∀ pos labels pointers next, Compressed m n before.size pos labels pointers next →
        (read.runAt m pos = (.ok ⟨labels⟩, next) ↔ pointers ≤ 127) := by
  intro written m
  have hread : ∀ pos labels pointers next, Compressed m n before.size pos labels pointers next →
      (read.runAt m pos = (.ok ⟨labels⟩, next) ↔ pointers ≤ 127) := by
    intro pos labels pointers next hcompressed
    have hshort := (labelsError?_eq_none_iff.1 hvalid).1
    obtain ⟨behind, stop, walk, root, rfl, rfl⟩ :=
      hcompressed.walk hshort (standsAt_append_append before after _)
    exact walk.read_iff root
  exact ⟨write_runOn hvalid hroom,
    (hread _ _ _ _ (.boundary (List.nil_append _).symm)).2 (Nat.zero_le _), hread⟩

/-- The name `A.b` is written behind two octets. Behind it, the label of one octet
192 points to its second label, and a lone pointer points to that label. -/
theorem read_lone_pointer_to_pointing_label :
    let n : Name := ⟨[[0x41], [0x62]]⟩
    let before : Octets := #[0, 0]
    let m : Octets := before ++ Writer.labelOctets n.labels ++ #[1, 0xC0, 0xC0, 4, 0xC0, 7, 0xFF]
    labelsError? n.labels = none ∧ before.size + n.wireLength ≤ 7 ∧
      n.write.runOn ⟨7, before⟩ = (.ok (), ⟨7, before ++ Writer.labelOctets n.labels⟩) ∧
      read.runAt m 2 = (.ok n, 7) ∧ Compressed m n 2 11 [[0xC0], [0x62]] 2 13 ∧
      read.runAt m 11 = (.ok ⟨[[0xC0], [0x62]]⟩, 13) := by
  intro n before m
  have hvalid : labelsError? n.labels = none := by decide
  have hroom : before.size + n.wireLength ≤ 7 := by decide
  obtain ⟨hwrite, hread, hcompressed⟩ := read_undoes_compression n before
    #[1, 0xC0, 0xC0, 4, 0xC0, 7, 0xFF] 7 hvalid hroom
  have hboundary : Compressed m n 2 4 [[0x62]] 0 7 :=
    @Compressed.boundary m n 2 [[0x41]] [[0x62]] (by decide)
  have hlabel : Compressed m n 2 7 [[0xC0], [0x62]] 1 11 :=
    @Compressed.pointing m n 2 7 4 [] [[0xC0]] [[0x62]] 0 7 (by decide) (by decide) (by decide)
      hboundary
  have hlone : Compressed m n 2 11 [[0xC0], [0x62]] 2 13 :=
    @Compressed.pointing m n 2 11 7 [] [] [[0xC0], [0x62]] 1 11 (by decide) (by decide)
      (by decide) hlabel
  exact ⟨hvalid, hroom, hwrite, hread, hlone, (hcompressed _ _ _ _ hlone).2 (by decide)⟩

end StubResolver.Name
