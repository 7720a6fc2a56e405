import StubResolver.Proofs.Record.InPlace
import StubResolver.Proofs.Wire.Writing

/-!
# OPT records on the wire

An OPT record is written with its fields packed into the class and the time to live
of the record header, and is the same when it is read back from there. The other way
round, a record that is read and written again is the same but for the bits of the
time to live that have no meaning: these are cleared.
-/

namespace StubResolver

open Name

theorem RecordHeader.length_fixedOctets (h : RecordHeader) : h.fixedOctets.length = 10 := rfl

namespace Opt

def header (o : Opt) : RecordHeader :=
  ⟨.root, .opt, ⟨o.payloadSize⟩, o.ttlField.toInt32, o.options.length.toUInt16⟩

def record (o : Opt) : Record := ⟨o.header, .opt o⟩

def octets (o : Opt) : List UInt8 := [0] ++ (o.header.fixedOctets ++ o.options)

inductive Obtained : Opt → Prop where
  | made (payloadSize : UInt16) (dnssecOk : Bool) : Obtained (ofRequest payloadSize dnssecOk)
  | read {o : Opt} {h : RecordHeader} {m : Octets} {pos next : Nat}
      (reads : Opt.read h m pos = .ok o next) : Obtained o

/-- A whole OPT record below the root, whatever
the bits of its time to live field are. -/
def wireOctets (payloadSize : UInt16) (ttl : UInt32) (options : List UInt8) : List UInt8 :=
  0 :: (Wire.octets16 RecordType.opt.code ++ Wire.octets16 payloadSize ++ Wire.octets32 ttl
    ++ Wire.octets16 options.length.toUInt16 ++ options)

/-! ## The time to live field -/

theorem ttlField_eq_join32 (o : Opt) :
    o.ttlField = Wire.join32 o.extendedRcode o.version (if o.dnssecOk then 0x80 else 0) 0 := by
  have hmask : (if o.dnssecOk then dnssecOkMask else 0) =
      (if o.dnssecOk then (0x80 : UInt8) else 0).toUInt32 <<< 8 := by
    cases o.dnssecOk <;> rfl
  rw [ttlField, hmask, Wire.join32, show (0 : UInt8).toUInt32 = 0 from rfl, UInt32.or_zero]

theorem octets32_ttlField (o : Opt) :
    Wire.octets32 o.ttlField = [o.extendedRcode, o.version, if o.dnssecOk then 0x80 else 0, 0] := by
  rw [ttlField_eq_join32, Wire.octets32_join32]

theorem packedInto_header (o : Opt) : o.PackedInto o.header where
  payloadSize := rfl
  ttl := by
    refine ⟨_, _, octets32_ttlField o, ?_⟩
    cases o.dnssecOk with
    | true => decide
    | false => decide

theorem octets32_and (v w : UInt32) :
    Wire.octets32 (v &&& w) = List.zipWith (· &&& ·) (Wire.octets32 v) (Wire.octets32 w) := by
  simp [Wire.octets32, UInt32.shiftRight_and]

theorem and_0x80 (octet : UInt8) : octet &&& 0x80 = if 0x80 ≤ octet.toNat then 0x80 else 0 := by
  obtain ⟨bits⟩ := octet
  revert bits
  decide +kernel

variable {o : Opt} {h : RecordHeader}

theorem PackedInto.ttlField_eq (packed : o.PackedInto h) :
    o.ttlField = h.ttl.toUInt32 &&& 0xFFFF8000 := by
  obtain ⟨high, low, httl, hflag⟩ := packed.ttl
  have hbits : Wire.octets32 0xFFFF8000 = [0xFF, 0xFF, 0x80, 0] := by decide
  have hones (octet : UInt8) : octet &&& 0xFF = octet := UInt8.and_neg_one
  apply Wire.octets32_injective
  rw [octets32_ttlField, octets32_and, httl, hbits]
  simp [hones, and_0x80, hflag]

/-! ## Writing and reading -/

theorem length_octets : o.octets.length = 11 + o.options.length := by
  simp only [octets, List.length_append, List.length_singleton, RecordHeader.length_fixedOctets]
  omega

theorem toNat_dataLength (h : o.options.length ≤ 0xFFFF) :
    o.header.dataLength.toNat = o.options.length := by
  simp [header]
  omega

theorem write_appends (h : o.options.length ≤ 0xFFFF) : o.write.Appends o.octets := by
  have hfields : Writer.Appends (do
      Writer.u8 0
      RecordType.opt.write
      RecordClass.write ⟨o.payloadSize⟩
      Writer.u32 o.ttlField
      Writer.u16 o.options.length.toUInt16
      Writer.octets o.options) _ :=
    (Writer.octets_appends _).bind <| (Writer.octets_appends _).bind <|
      (Writer.octets_appends _).bind <| (Writer.octets_appends _).bind <|
        (Writer.octets_appends _).bind <| Writer.octets_appends _
  unfold write
  rw [if_neg (Nat.not_lt.2 h)]
  simpa [octets, header, RecordHeader.fixedOctets] using hfields

theorem PackedInto.record_occupies {m : Octets} {pos : Nat} (packed : o.PackedInto h)
    (hroot : h.owner = .root) (htype : h.type = .opt)
    (hlength : o.options.length = h.dataLength.toNat)
    (hstands : StandsAt m pos ([0] ++ (h.fixedOctets ++ o.options))) :
    (⟨h, .opt o⟩ : Record).Occupies (Registry.standard.Decodes m) m pos
      (pos + (11 + o.options.length)) := by
  have hle := hstands.length_le (List.cons_ne_nil _ _)
  obtain ⟨hzero, hrest⟩ := standsAt_append_iff.1 hstands
  obtain ⟨hfixed, hoptions⟩ := standsAt_append_iff.1 hrest
  have howner : h.owner.Occupies m pos (pos + 1) := by
    rw [hroot]
    exact occupies_of_standsAt_labelOctets (List.forall_mem_nil _) hzero
  have hend : pos + (11 + o.options.length) = pos + 11 + h.dataLength.toNat := by
    omega
  have hle : pos + 11 + h.dataLength.toNat ≤ m.size := by
    simp only [List.length_append, List.length_singleton, RecordHeader.length_fixedOctets] at hle
    omega
  have hdata : o.options = h.dataAt m (pos + 11) :=
    ((standsAt_iff_extract hlength hle).1 hoptions).symm
  have inPlace := RecordData.InPlace.opt htype packed hdata
  exact ⟨pos + 11, ⟨pos + 1, howner, hfixed, rfl⟩, inPlace.decoderFor_eq hle, hend, hend ▸ hle⟩

theorem record_occupies {m : Octets} {pos : Nat} (h : o.options.length ≤ 0xFFFF)
    (hstands : StandsAt m pos o.octets) :
    o.record.Occupies (Registry.standard.Decodes m) m pos (pos + o.octets.length) := by
  rw [length_octets]
  exact o.packedInto_header.record_occupies rfl rfl (toNat_dataLength h).symm hstands

theorem Obtained.length_options_le (h : o.Obtained) : o.options.length ≤ 0xFFFF := by
  cases h with
  | made payloadSize dnssecOk => simp [ofRequest]
  | @read _ h m pos next reads =>
      unfold Opt.read at reads
      obtain ⟨options, mid, htake, hpure⟩ := Reader.bind_eq_ok_iff.1 reads
      obtain ⟨rfl, -⟩ := Reader.pure_eq_ok_iff.1 hpure
      obtain ⟨-, hlength, -⟩ := Reader.take_eq_ok_iff.1 htake
      have hmax := h.dataLength.toNat_lt
      simp only [hlength]
      omega

/-! ## Records as they were received -/

def unpack (payloadSize : UInt16) (ttl : UInt32) (options : List UInt8) : Opt :=
  ⟨payloadSize, (ttl >>> 24).toUInt8, (ttl >>> 16).toUInt8, ttl &&& dnssecOkMask != 0, options⟩

def wireHeader (payloadSize : UInt16) (ttl : UInt32) (length : Nat) : RecordHeader :=
  ⟨.root, .opt, ⟨payloadSize⟩, ttl.toInt32, length.toUInt16⟩

theorem unpack_packedInto (payloadSize : UInt16) (ttl : UInt32) (options : List UInt8) :
    (unpack payloadSize ttl options).PackedInto (wireHeader payloadSize ttl options.length) :=
  ⟨rfl, _, _, rfl, masked_ne_zero_iff ttl⟩

theorem octets_unpack (payloadSize : UInt16) (ttl : UInt32) (options : List UInt8) :
    (unpack payloadSize ttl options).octets =
      wireOctets payloadSize (ttl &&& 0xFFFF8000) options := by
  have httl : (unpack payloadSize ttl options).ttlField = ttl &&& 0xFFFF8000 :=
    (unpack_packedInto payloadSize ttl options).ttlField_eq
  rw [← httl]
  rfl

theorem readRecord_wireOctets {payloadSize : UInt16} {ttl : UInt32} {options : List UInt8}
    (hsmall : options.length ≤ 0xFFFF) {m : Octets} {pos : Nat}
    (hstands : StandsAt m pos (wireOctets payloadSize ttl options)) :
    Registry.standard.readRecord m pos =
      .ok ⟨wireHeader payloadSize ttl options.length, .opt (unpack payloadSize ttl options)⟩
        (pos + (11 + options.length)) := by
  have hlength : options.length = (wireHeader payloadSize ttl options.length).dataLength.toNat := by
    simp [wireHeader]
    omega
  exact Registry.readRecord_of_occupies
    ((unpack_packedInto payloadSize ttl options).record_occupies rfl rfl hlength hstands)

/-- OPT records as they are made or read are written in as many octets as it takes,
and read back from there as they were, below the root. OPT records below the root are
written as they were read, but for the fifteen bits behind the flag in the time to
live. -/
theorem write_inverts_read :
    (∀ o : Opt, o.Obtained → ∃ os : List UInt8, os.length = 11 + o.options.length ∧
      (∀ c : Composer, c.octets.size + os.length ≤ c.capacity →
        o.write.runOn c = (.ok (), { c with octets := c.octets ++ os })) ∧
      ∀ m pos, StandsAt m pos os → ∃ r,
        Registry.standard.readRecord m pos = .ok r (pos + os.length) ∧
          r.header.owner = .root ∧ r.data = .opt o) ∧
    ∀ (payloadSize : UInt16) (ttl : UInt32) (options : List UInt8), options.length ≤ 0xFFFF →
      ∃ o : Opt, (∀ m pos, StandsAt m pos (wireOctets payloadSize ttl options) → ∃ r,
        Registry.standard.readRecord m pos = .ok r (pos + (11 + options.length)) ∧
          r.data = .opt o) ∧
      ∀ c : Composer, c.octets.size + (11 + options.length) ≤ c.capacity →
        o.write.runOn c =
          (.ok (),
            { c with
              octets := c.octets ++ wireOctets payloadSize (ttl &&& 0xFFFF8000) options }) := by
  constructor
  · intro o hobtained
    have hsmall := hobtained.length_options_le
    refine ⟨o.octets, length_octets, fun c hroom => (write_appends hsmall).runOn_eq hroom,
      fun m pos hstands => ⟨o.record, ?_, rfl, rfl⟩⟩
    exact Registry.readRecord_of_occupies (record_occupies hsmall hstands)
  · intro payloadSize ttl options hsmall
    refine ⟨unpack payloadSize ttl options,
      fun m pos hstands => ⟨_, readRecord_wireOctets hsmall hstands, rfl⟩, fun c hroom => ?_⟩
    rw [← octets_unpack]
    refine (write_appends hsmall).runOn_eq ?_
    rw [length_octets]
    exact hroom

/-- All bits without a meaning are set, and the
record stands behind an octet of something else. -/
theorem rewrites_meaningless_bits :
    let o : Opt := ⟨1232, 0xFF, 0, true, [0, 3, 0, 0]⟩
    let m : Octets := #[0xC0, 0, 0, 41, 4, 0xD0, 0xFF, 0, 0xFF, 0xFF, 0, 4, 0, 3, 0, 0]
    let cleared : Octets := #[0, 0, 41, 4, 0xD0, 0xFF, 0, 0x80, 0, 0, 4, 0, 3, 0, 0]
    o.Obtained ∧
      (∃ os : List UInt8, os.length = 15 ∧ o.write.runOn (.empty 15) = (.ok (), ⟨15, os.toArray⟩) ∧
        ∃ r, Registry.standard.readRecord os.toArray 0 = .ok r 15 ∧ r.data = .opt o) ∧
      ∃ r o', Registry.standard.readRecord m 1 = .ok r 16 ∧ r.data = .opt o' ∧
        o'.write.runOn (.empty 15) = (.ok (), ⟨15, cleared⟩) := by
  intro o m cleared
  have hobtained : o.Obtained :=
    .read (show Opt.read (wireHeader 1232 0xFF00FFFF 4) m 12 = .ok o 16 from rfl)
  have hstands : StandsAt m 1 (wireOctets 1232 0xFF00FFFF [0, 3, 0, 0]) := by decide
  obtain ⟨hmade, hreceived⟩ := write_inverts_read
  obtain ⟨os, hlength, hwrite, hread⟩ := hmade o hobtained
  obtain ⟨o', hread', hwrite'⟩ := hreceived 1232 0xFF00FFFF [0, 3, 0, 0] (by decide)
  obtain ⟨r, hr, -, hdata⟩ := hread os.toArray 0 List.prefix_rfl
  obtain ⟨r', hr', hdata'⟩ := hread' m 1 hstands
  have hwritten : o.write.runOn (.empty 15) = (.ok (), ⟨15, os.toArray⟩) := by
    simpa [Composer.empty] using hwrite (.empty 15) (by simp [hlength, Composer.empty, o])
  rw [hlength] at hr
  exact ⟨hobtained, ⟨os, hlength, hwritten, r, hr, hdata⟩,
    r', o', hr', hdata', hwrite' (.empty 15) (by decide)⟩

end Opt

end StubResolver
