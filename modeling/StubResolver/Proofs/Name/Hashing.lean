import StubResolver.Proofs.Name.Compression
import StubResolver.Proofs.Name.Reversed
import StubResolver.Proofs.Wire.Writing

/-!
# Comparing and hashing names

What a name feeds to a hasher is its labels in lower case as they would be written in
a message, each behind an octet with its length, with a zero behind the last. As no
label is empty and the length of each can be told by one octet, the labels can be
read off it again, and where they end.
-/

namespace StubResolver.Name

open Text

inductive Obtained : Name → Prop where
  | root : Obtained root
  | constructed {n : Name} (h : Constructed n) : Obtained n
  | reverse (ip : IpAddress) : Obtained (reverse ip)

theorem Obtained.length_bounds {n : Name} (h : Obtained n) :
    ∀ l ∈ n.labels, 1 ≤ l.length ∧ l.length ≤ 255 := by
  cases h with
  | root => simp [Name.root]
  | constructed h => exact h.length_bounds
  | reverse ip => exact length_bounds_of_ofLabels (ofLabels_reverse ip)

theorem hashOctets_eq_labelOctets (n : Name) :
    n.hashOctets = Writer.labelOctets n.caseFold.labels := by
  simp [hashOctets, Writer.labelOctets, caseFold, List.flatMap_map, lowerOctets]

theorem Obtained.length_bounds_caseFold {n : Name} (h : Obtained n) :
    ∀ l ∈ n.caseFold.labels, 1 ≤ l.length ∧ l.length ≤ 255 := by
  simpa [caseFold, lowerOctets] using h.length_bounds

/-! ## Reading labels off their written form -/

theorem length_eq_of_toUInt8_eq {l l' : Label} (hl : l.length ≤ 255) (hl' : l'.length ≤ 255)
    (h : l.length.toUInt8 = l'.length.toUInt8) : l.length = l'.length := by
  have hnat := congrArg UInt8.toNat h
  simp only [Nat.toUInt8, UInt8.toNat_ofNat'] at hnat
  omega

theorem length_toUInt8_ne_zero {l : Label} (hl : 1 ≤ l.length ∧ l.length ≤ 255) :
    l.length.toUInt8 ≠ 0 := by
  intro h
  have hlength : l.length = ([] : Label).length := length_eq_of_toUInt8_eq hl.2 (Nat.zero_le _) h
  exact absurd hl.1 (by simp [hlength])

theorem labelOctets_append_inj {ls ls' : List Label} {os os' : List UInt8}
    (h : ∀ l ∈ ls, 1 ≤ l.length ∧ l.length ≤ 255) (h' : ∀ l ∈ ls', 1 ≤ l.length ∧ l.length ≤ 255)
    (heq : Writer.labelOctets ls ++ os = Writer.labelOctets ls' ++ os') : ls = ls' ∧ os = os' := by
  have hroot : ∀ os, Writer.labelOctets [] ++ os = 0 :: os := fun _ => rfl
  induction ls generalizing ls' with
  | nil =>
      cases ls' with
      | nil => exact ⟨rfl, List.append_cancel_left heq⟩
      | cons l' ls' =>
          rw [hroot, labelOctets_cons] at heq
          exact absurd (List.cons.inj heq).1.symm
            (length_toUInt8_ne_zero (h' l' List.mem_cons_self))
  | cons l ls ih =>
      obtain ⟨hl, hls⟩ := List.forall_mem_cons.1 h
      cases ls' with
      | nil =>
          rw [hroot, labelOctets_cons] at heq
          exact absurd (List.cons.inj heq).1 (length_toUInt8_ne_zero hl)
      | cons l' ls' =>
          obtain ⟨hl', hls'⟩ := List.forall_mem_cons.1 h'
          rw [labelOctets_cons, labelOctets_cons, List.cons_append, List.cons_append,
            List.append_assoc, List.append_assoc] at heq
          obtain ⟨hlength, hbehind⟩ := List.cons.inj heq
          obtain ⟨rfl, hrest⟩ :=
            List.append_inj hbehind (length_eq_of_toUInt8_eq hl.2 hl'.2 hlength)
          obtain ⟨rfl, rfl⟩ := ih hls hls' hrest
          exact ⟨rfl, rfl⟩

/-! ## Hash octets -/

theorem Obtained.same_of_hashOctets_append {a b : Name} (ha : Obtained a) (hb : Obtained b)
    (os os' : List UInt8) (h : a.hashOctets ++ os = b.hashOctets ++ os') :
    a.same b = true ∧ os = os' := by
  rw [hashOctets_eq_labelOctets, hashOctets_eq_labelOctets] at h
  obtain ⟨hlabels, hrest⟩ :=
    labelOctets_append_inj ha.length_bounds_caseFold hb.length_bounds_caseFold h
  exact ⟨decide_eq_true (congrArg Name.mk hlabels), hrest⟩

theorem hashOctets_of_same {a b : Name} (h : a.same b = true) : a.hashOctets = b.hashOctets := by
  rw [hashOctets_eq_labelOctets, hashOctets_eq_labelOctets, of_decide_eq_true h]

/-- Two names are the same exactly if they feed the same octets to a hasher; what one
feeds is never the mere beginning of what another does; and names that are the same
have one canonical text. -/
theorem same_iff_hashOctets_eq (a b : Name) (ha : Obtained a) (hb : Obtained b) :
    (a.same b = true ↔ a.hashOctets = b.hashOctets) ∧
    (a.hashOctets <+: b.hashOctets → a.hashOctets = b.hashOctets) ∧
    (a.same b = true → a.canonicalText = b.canonicalText) := by
  refine ⟨⟨hashOctets_of_same, fun h => ?_⟩, ?_, fun h => ?_⟩
  · exact (ha.same_of_hashOctets_append hb [] [] (by rw [h])).1
  · rintro ⟨os, hos⟩
    obtain ⟨-, rfl⟩ := ha.same_of_hashOctets_append hb os [] (by rw [hos, List.append_nil])
    rw [← hos, List.append_nil]
  · rw [canonicalText_eq_iff]
    exact lowerOctets_dotted_of_same h

theorem constructed_oversized {os : List UInt8} (hlength : os.length = 191) :
    Constructed ⟨[0xFF :: os]⟩ := by
  let m : Octets := (#[] : Octets) ++ (0xC0 :: 0xFF :: os) ++ #[0]
  have hstands : StandsAt m 0 (0xC0 :: 0xFF :: os) := standsAt_append_append #[] #[0] _
  have hsize : m.size = 194 := by simp [m, hlength]
  have hlabel : LabelAt m 0 (0xFF :: os) 193 :=
    .oversized hstands (by decide) (by rw [hsize]; decide) (by simp [hlength])
  have hroot : RootAt m 193 := by
    rw [RootAt, standsAt_singleton]
    simp [m, hlength]
  exact .read (((Walk.label hlabel (.here _)).read_iff hroot).2 (Nat.zero_le _))

/-- An oversized label with capital letters and
one without are the same, and hash as such. -/
theorem hashOctets_of_oversized :
    let a : Name := ⟨[0xFF :: List.replicate 191 0x41]⟩
    let b : Name := ⟨[0xFF :: List.replicate 191 0x61]⟩
    Obtained a ∧ Obtained b ∧ a.same b = true ∧ a.hashOctets = b.hashOctets ∧
      a.canonicalText = b.canonicalText := by
  intro a b
  have ha : Obtained a := .constructed (constructed_oversized List.length_replicate)
  have hb : Obtained b := .constructed (constructed_oversized List.length_replicate)
  have hsame : a.same b = true := by decide +kernel
  obtain ⟨hhash, -, htext⟩ := same_iff_hashOctets_eq a b ha hb
  exact ⟨ha, hb, hsame, hhash.1 hsame, htext hsame⟩

end StubResolver.Name
