import StubResolver.Proofs.Name.Decompression
import StubResolver.Proofs.Wire.Reading

/-!
# Where names stand in messages

A name occupies the octets up to its root label or through its first pointer; what
the pointer leads to stands elsewhere. At a given position stands at most one name.
-/

namespace StubResolver

/-- The name is read by naive decompression at `pos`,
and `next` is the position behind its octets there. -/
def Name.Occupies (n : Name) (m : Octets) (pos next : Nat) : Prop :=
  ∃ behind stop, Name.Walk m pos n.labels behind stop ∧ behind.length ≤ Name.maxPointers ∧
    Name.RootAt m stop ∧ next = behind.headD (stop + 1)

namespace Reader

theorem runAt_eq_ok_iff {α : Type} {reader : Reader α} {m : Octets} {pos next : Nat} {a : α} :
    reader.runAt m pos = (.ok a, next) ↔ reader m pos = .ok a next := by
  unfold runAt
  cases reader m pos <;> simp

end Reader

namespace Name

variable {m : Octets} {pos next next' : Nat} {n n' : Name}

theorem read_eq_ok_iff : read m pos = .ok n next ↔ n.Occupies m pos next := by
  obtain ⟨r, hreads, hrun⟩ := read_runAt m pos
  rw [← Reader.runAt_eq_ok_iff, hrun, Occupies, ← hreads.ok_iff]
  obtain ⟨labels⟩ := n
  cases r <;> simp [leaves, Prod.ext_iff]

theorem Occupies.unique (h : n.Occupies m pos next) (h' : n'.Occupies m pos next') :
    n = n' ∧ next = next' := by
  rw [← read_eq_ok_iff] at h h'
  rw [h] at h'
  exact EStateM.Result.ok.inj h'

theorem occupies_root (h : StandsAt m pos [0]) : root.Occupies m pos (pos + 1) :=
  ⟨[], pos, .here pos, Nat.zero_le _, h, rfl⟩

theorem LabelAt.lt {content : Label} (h : LabelAt m pos content next) : pos < next :=
  (lt_of_pieceAt_label h.pieceAt_eq).1

theorem Walk.headD_bounds {labels : List Label} {behind : List Nat} {stop : Nat}
    (walk : Walk m pos labels behind stop) (root : RootAt m stop) :
    pos < behind.headD (stop + 1) ∧ behind.headD (stop + 1) ≤ m.size := by
  induction walk with
  | here pos => exact ⟨Nat.lt_succ_self pos, root.length_le (List.cons_ne_nil _ _)⟩
  | label first rest ih =>
      obtain ⟨hlt, hle⟩ := ih root
      exact ⟨Nat.lt_trans first.lt hlt, hle⟩
  | @pointer pos target stop labels behind first rest ih =>
      obtain ⟨stands, -, -⟩ := first
      have hle := stands.length_le (List.cons_ne_nil _ _)
      simp only [List.length_cons, List.length_nil, List.headD_cons] at hle ⊢
      omega

theorem Occupies.bounds (h : n.Occupies m pos next) : pos < next ∧ next ≤ m.size := by
  obtain ⟨behind, stop, walk, few, root, rfl⟩ := h
  exact walk.headD_bounds root

/-- The written form of labels without an end: each behind its length. -/
def labelFrames (labels : List Label) : List UInt8 :=
  labels.flatMap fun l => l.length.toUInt8 :: l

theorem labelFrames_append (labels labels' : List Label) :
    labelFrames (labels ++ labels') = labelFrames labels ++ labelFrames labels' :=
  List.flatMap_append

theorem walk_of_standsAt_labelFrames {labels : List Label}
    (hlabels : ∀ l ∈ labels, 1 ≤ l.length ∧ l.length ≤ maxLabelLength)
    (h : StandsAt m pos (labelFrames labels)) :
    Walk m pos labels [] (pos + (labelFrames labels).length) := by
  induction labels generalizing pos with
  | nil => exact .here pos
  | cons l labels ih =>
      obtain ⟨⟨low, high⟩, hrest⟩ := List.forall_mem_cons.1 hlabels
      have hlength : l.length.toUInt8.toNat = l.length := by
        unfold maxLabelLength at high
        simp
        omega
      have hframes : labelFrames (l :: labels) = (l.length.toUInt8 :: l) ++ labelFrames labels :=
        List.flatMap_cons
      rw [hframes, standsAt_append_iff] at h
      obtain ⟨hlabel, hstands⟩ := h
      have hnext : pos + (l.length.toUInt8 :: l).length = pos + 1 + l.length.toUInt8.toNat := by
        rw [hlength, List.length_cons]
        omega
      rw [hframes, List.length_append, ← Nat.add_assoc]
      rw [hnext] at hstands ⊢
      refine .label (.short hlabel ?_ ?_ hlength.symm) (ih hrest hstands)
      · rwa [hlength]
      · rwa [hlength]

theorem walk_of_standsAt_labelOctets {labels : List Label}
    (hlabels : ∀ l ∈ labels, 1 ≤ l.length ∧ l.length ≤ maxLabelLength)
    (h : StandsAt m pos (Writer.labelOctets labels)) :
    ∃ stop, Walk m pos labels [] stop ∧ RootAt m stop ∧
      stop + 1 = pos + (Writer.labelOctets labels).length := by
  obtain ⟨hframes, hroot⟩ := standsAt_append_iff.1 h
  refine ⟨_, walk_of_standsAt_labelFrames hlabels hframes, hroot, ?_⟩
  rw [Writer.labelOctets, List.length_append]
  rfl

theorem occupies_of_standsAt_labelOctets
    (hlabels : ∀ l ∈ n.labels, 1 ≤ l.length ∧ l.length ≤ maxLabelLength)
    (h : StandsAt m pos (Writer.labelOctets n.labels)) :
    n.Occupies m pos (pos + (Writer.labelOctets n.labels).length) := by
  obtain ⟨stop, walk, root, hstop⟩ := walk_of_standsAt_labelOctets hlabels h
  exact ⟨[], stop, walk, Nat.zero_le _, root, hstop.symm⟩

theorem occupies_of_pointer (front labels : List Label) (first second : UInt8)
    (hlabels : ∀ l ∈ front ++ labels, 1 ≤ l.length ∧ l.length ≤ maxLabelLength)
    (hmark : 0xC0 ≤ first.toNat) (hfront : StandsAt m pos (labelFrames front ++ [first, second]))
    (hrest : StandsAt m (pointerTarget first second) (Writer.labelOctets labels)) :
    (⟨front ++ labels⟩ : Name).Occupies m pos (pos + (labelFrames front).length + 2) := by
  obtain ⟨hframes, hpair⟩ := standsAt_append_iff.1 hfront
  rw [List.forall_mem_append] at hlabels
  obtain ⟨stop, walk, root, -⟩ := walk_of_standsAt_labelOctets hlabels.2 hrest
  have hwithin : pointerTarget first second < m.size := by
    obtain ⟨hlt, hle⟩ := walk.headD_bounds root
    exact Nat.lt_of_lt_of_le hlt hle
  have hfollow := Walk.pointer (.intro hpair hmark hwithin) walk
  have few : 1 ≤ maxPointers := by decide
  exact ⟨_, stop, (walk_of_standsAt_labelFrames hlabels.1 hframes).trans hfollow, few, root, rfl⟩

end Name

end StubResolver
