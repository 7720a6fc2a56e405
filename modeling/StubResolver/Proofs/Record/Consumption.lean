import StubResolver.Proofs.Record.InPlace

/-!
# Where decoders end

A record is read only if its decoder ends where its data does, and otherwise the
decoder is taken to be at fault. How many octets it took is counted in words, so that
a decoder that ends before the data begins has taken nearly as many as a word can
count.

The standard decoders of addresses and names end where these do, whatever the header
announces. Data that is longer or shorter than its fields is therefore laid to them,
and not to whoever sent it.
-/

namespace StubResolver

open Name

variable {m : Octets} {pos start stop next : Nat} {r : Registry} {header : RecordHeader}
  {data : RecordData} {e : ParseError}

/-! ## What becomes of a record -/

theorem Registry.readRecord_of_decoded (hheader : header.Occupies m pos start)
    (hroom : start + header.dataLength.toNat ≤ m.size)
    (hdata : r.decoderFor header.type header m start = .ok data stop) :
    r.readRecord m pos =
      if stop.toUInt64 - start.toUInt64 = header.dataLength.toUInt64 then .ok ⟨header, data⟩ stop
      else
        .error (.desync header.type header.dataLength (stop.toUInt64 - start.toUInt64)) stop := by
  have hrequire : Reader.require header.dataLength.toNat m start = .ok () start :=
    Reader.require_eq_ok_iff.2 ⟨hroom, rfl⟩
  have hposition : ∀ p, Reader.position m p = .ok p p := fun _ => rfl
  unfold Registry.readRecord
  rw [Reader.bind_of_ok (RecordHeader.read_eq_ok_iff.2 hheader), Reader.bind_of_ok hrequire,
    Reader.bind_of_ok (hposition start), Reader.bind_of_ok hdata,
    Reader.bind_of_ok (hposition stop)]
  split <;> rfl

theorem Registry.readRecord_error_cases (h : r.readRecord m pos = .error e stop) :
    RecordHeader.read m pos = .error e stop ∨ e = .shortInput ∨
      ∃ header start, header.Occupies m pos start ∧ start + header.dataLength.toNat ≤ m.size ∧
        (r.decoderFor header.type header m start = .error e stop ∨
          ∃ data, r.decoderFor header.type header m start = .ok data stop) := by
  unfold Registry.readRecord at h
  simp only [Reader.bind_eq_error_iff, Reader.require_eq_error_iff, Reader.require_eq_ok_iff,
    Reader.position_ne_error, Reader.position_eq_ok_iff, RecordHeader.read_eq_ok_iff, false_or] at h
  rcases h with
    hheader | ⟨header, start, hheader, ⟨-, he, -⟩ | ⟨_, _, ⟨hroom, rfl⟩, _, _, ⟨rfl, rfl⟩, h⟩⟩
  · exact .inl hheader
  · exact .inr (.inl he)
  refine .inr (.inr ⟨header, _, hheader, hroom, ?_⟩)
  rcases h with hdata | ⟨data, _, hdata, _, _, ⟨rfl, rfl⟩, hend⟩
  · exact .inl hdata
  split at hend
  · exact (Reader.pure_ne_error _ hend).elim
  · obtain ⟨-, rfl⟩ := EStateM.Result.error.inj hend
    exact .inr ⟨data, hdata⟩

/-! ## Counting in words -/

theorem Registry.toNat_consumed (hstart : start < UInt64.size) (hstop : stop < UInt64.size) :
    (stop.toUInt64 - start.toUInt64).toNat =
      if start ≤ stop then stop - start else UInt64.size - (start - stop) := by
  rw [UInt64.toNat_sub, UInt64.toNat_ofNat_of_lt' hstart, UInt64.toNat_ofNat_of_lt' hstop]
  unfold UInt64.size at *
  split <;> omega

theorem Registry.consumed_eq_iff {length : UInt16} (hstop : stop < UInt64.size)
    (hend : start + length.toNat < UInt64.size) :
    stop.toUInt64 - start.toUInt64 = length.toUInt64 ↔ stop = start + length.toNat := by
  have hstart : start < UInt64.size := by omega
  have hlength := length.toNat_lt
  rw [← UInt64.toNat_inj, toNat_consumed hstart hstop, UInt16.toNat_toUInt64]
  unfold UInt64.size at *
  split <;> omega

/-! ## Any decoders -/

def Decoder.StaysIn (m : Octets) (decoder : Decoder) : Prop :=
  ∀ header start data stop, decoder header m start = .ok data stop → stop ≤ m.size

theorem Registry.decoderFor_staysIn (hstays : ∀ entry ∈ r.decoders, entry.2.StaysIn m)
    (type : RecordType) : (r.decoderFor type).StaysIn m := by
  refine decoderFor_of_forall hstays (fun header start data stop hread => ?_) type
  obtain ⟨-, hroom, rfl⟩ := RecordData.readUnknown_eq_ok_iff.1 hread
  exact hroom

/-- Whatever decoders there are and wherever in the message they end, a record is
read exactly if its decoder ends where its data does. A decoder that ends elsewhere
is at fault. What it took is counted from the start of the data on; where it ends
before that, the count wraps around. -/
theorem Registry.readRecord_checks_end (hsize : m.size < UInt64.size)
    (hstays : ∀ entry ∈ r.decoders, entry.2.StaysIn m) :
    (∀ header start data stop, header.Occupies m pos start →
      start + header.dataLength.toNat ≤ m.size →
      r.decoderFor header.type header m start = .ok data stop →
      (stop = start + header.dataLength.toNat → r.readRecord m pos = .ok ⟨header, data⟩ stop) ∧
      (stop ≠ start + header.dataLength.toNat → ∃ consumed : UInt64,
        r.readRecord m pos = .error (.desync header.type header.dataLength consumed) stop ∧
          consumed.toNat = if start ≤ stop then stop - start else UInt64.size - (start - stop))) ∧
    ∀ record next, r.readRecord m pos = .ok record next → ∃ start,
      record.header.Occupies m pos start ∧
        r.decoderFor record.header.type record.header m start = .ok record.data next ∧
        next = start + record.header.dataLength.toNat := by
  refine ⟨fun header start data stop hheader hroom hdata => ?_, fun record next hread => ?_⟩
  · have hstop := decoderFor_staysIn hstays _ _ _ _ _ hdata
    have hend : stop.toUInt64 - start.toUInt64 = header.dataLength.toUInt64 ↔
        stop = start + header.dataLength.toNat := consumed_eq_iff (by omega) (by omega)
    rw [readRecord_of_decoded hheader hroom hdata]
    refine ⟨fun hinStep => if_pos (hend.2 hinStep), fun hastray => ?_⟩
    exact ⟨_, if_neg (mt hend.1 hastray), toNat_consumed (by omega) (by omega)⟩
  · obtain ⟨start, hheader, hroom, hdata, hconsumed⟩ := readRecord_ok_cases hread
    have hnext := decoderFor_staysIn hstays _ _ _ _ _ hdata
    exact ⟨start, hheader, hdata, (consumed_eq_iff (by omega) (by omega)).1 hconsumed⟩

/-- Takes no octets, but goes somewhere else in the message. -/
def Decoder.seeking (target : Nat) : Decoder := fun header => do
  Reader.seek target
  return .unknown header.type []

theorem Decoder.seeking_of_le {target : Nat} (h : target ≤ m.size) :
    seeking target header m start = .ok (.unknown header.type []) target :=
  Reader.bind_eq_ok_iff.2 ⟨(), target, if_pos h, rfl⟩

theorem Decoder.staysIn_seeking (target : Nat) : (seeking target).StaysIn m := by
  intro header start data stop hread
  obtain ⟨_, mid, hseek, hpure⟩ := Reader.bind_eq_ok_iff.1 hread
  obtain ⟨-, rfl⟩ := Reader.pure_eq_ok_iff.1 hpure
  unfold Reader.seek at hseek
  split at hseek
  · obtain ⟨-, rfl⟩ := EStateM.Result.ok.inj hseek
    assumption
  · cases hseek

/-- The header announces no data, and the decoder ends two octets further on. -/
theorem Registry.desync_of_seeking_ahead :
    let r : Registry := ⟨[(.a, .seeking 13)]⟩
    let m : Octets := #[0, 0, 1, 0, 1, 0, 0, 0, 0, 0, 0, 192, 0]
    let header : RecordHeader := ⟨.root, .a, .internet, 0, 0⟩
    m.size < UInt64.size ∧ (∀ entry ∈ r.decoders, entry.2.StaysIn m) ∧ header.Occupies m 0 11 ∧
      11 + header.dataLength.toNat ≤ m.size ∧
      r.decoderFor header.type header m 11 = .ok (.unknown .a []) 13 ∧
      13 ≠ 11 + header.dataLength.toNat ∧
      ∃ consumed : UInt64, r.readRecord m 0 = .error (.desync .a 0 consumed) 13 ∧
        consumed.toNat = if 11 ≤ 13 then 13 - 11 else UInt64.size - (11 - 13) := by
  intro r m header
  have hsize : m.size < UInt64.size := by decide
  have hstays : ∀ entry ∈ r.decoders, entry.2.StaysIn m :=
    List.forall_mem_singleton.2 (Decoder.staysIn_seeking 13)
  have hheader : header.Occupies m 0 11 := ⟨1, occupies_root (by decide), by decide, rfl⟩
  have hroom : 11 + header.dataLength.toNat ≤ m.size := by decide
  have hdata : r.decoderFor header.type header m 11 = .ok (.unknown .a []) 13 :=
    Decoder.seeking_of_le (by decide)
  have hastray : 13 ≠ 11 + header.dataLength.toNat := by decide
  exact ⟨hsize, hstays, hheader, hroom, hdata, hastray,
    ((readRecord_checks_end hsize hstays).1 _ _ _ _ hheader hroom hdata).2 hastray⟩

/-- A decoder that ends eleven octets before the data has taken
all octets that a word can count but for these eleven. -/
theorem Registry.count_wraps_of_seeking_back :
    let r : Registry := ⟨[(.a, .seeking 0)]⟩
    let m : Octets := #[0, 0, 1, 0, 1, 0, 0, 0, 0, 0, 4, 192, 0, 2, 1]
    let header : RecordHeader := ⟨.root, .a, .internet, 0, 4⟩
    header.Occupies m 0 11 ∧ r.decoderFor header.type header m 11 = .ok (.unknown .a []) 0 ∧
      r.readRecord m 0 = .error (.desync .a 4 18446744073709551605) 0 := by
  intro r m header
  have hheader : header.Occupies m 0 11 := ⟨1, occupies_root (by decide), by decide, rfl⟩
  have hdata : r.decoderFor header.type header m 11 = .ok (.unknown .a []) 0 :=
    Decoder.seeking_of_le (Nat.zero_le _)
  refine ⟨hheader, hdata, ?_⟩
  rw [readRecord_of_decoded hheader (by decide) hdata]
  rfl

/-! ## The standard decoders -/

theorem RecordData.InPlace.bounds (inPlace : data.InPlace m header start stop)
    (hroom : start + header.dataLength.toNat ≤ m.size) : start ≤ stop ∧ stop ≤ m.size := by
  cases inPlace with
  | a type octets | aaaa type octets =>
      have hle := octets.length_le (List.ne_nil_of_length_pos (by simp))
      rw [Vector.length_toList] at hle
      omega
  | ns type name | cname type name | ptr type name =>
      have hname := name.bounds
      omega
  | mx type number name =>
      have hname := name.bounds
      omega
  | soa type primary mailbox numbers =>
      have hprimary := primary.bounds
      have hmailbox := mailbox.bounds
      have hle := numbers.length_le (List.cons_ne_nil _ _)
      have hnumbers : ∀ s : Soa, s.numberOctets.length = 20 := fun _ => rfl
      rw [hnumbers] at hle
      omega
  | txt | opt | unknown => omega

def RecordType.ofFixedFields : List RecordType := [.a, .aaaa, .ns, .cname, .ptr, .mx, .soa]

/-- The data that the header at `pos` announces is all there, and so are the fields
of its type, but what of them is in place ends at `stop` and not where the data
does. -/
structure RecordHeader.Misfits (h : RecordHeader) (m : Octets) (pos start stop : Nat) : Prop where
  header : h.Occupies m pos start
  room : start + h.dataLength.toNat ≤ m.size
  fields : ∃ data : RecordData, data.InPlace m h start stop
  astray : stop ≠ start + h.dataLength.toNat

theorem RecordHeader.Misfits.type_mem (h : header.Misfits m pos start stop) :
    header.type ∈ RecordType.ofFixedFields := by
  obtain ⟨data, inPlace⟩ := h.fields
  cases inPlace with
  | a type | aaaa type | ns type | cname type | ptr type | mx type | soa type =>
      rw [type]
      decide
  | txt | opt | unknown => exact (h.astray rfl).elim

section

variable (hsize : m.size < UInt64.size)
include hsize

theorem Registry.readRecord_of_misfits (h : header.Misfits m pos start stop) :
    ∃ consumed : UInt64, start + consumed.toNat = stop ∧
      standard.readRecord m pos =
        .error (.desync header.type header.dataLength consumed) stop := by
  obtain ⟨hheader, hroom, ⟨data, inPlace⟩, hastray⟩ := h
  obtain ⟨hle, hstop⟩ := inPlace.bounds hroom
  refine ⟨stop.toUInt64 - start.toUInt64, ?_, ?_⟩
  · rw [toNat_consumed (by omega) (by omega), if_pos hle]
    omega
  · rw [readRecord_of_decoded hheader hroom (inPlace.decoderFor_eq hroom), if_neg]
    rwa [consumed_eq_iff (by omega) (by omega)]

theorem Registry.misfits_of_desync {type : RecordType} {expected : UInt16} {consumed : UInt64}
    (h : standard.readRecord m pos = .error (.desync type expected consumed) stop) :
    ∃ (header : RecordHeader) (start : Nat), header.Misfits m pos start stop ∧
      type = header.type := by
  rcases readRecord_error_cases h with
    hfailed | ⟨⟨⟩⟩ | ⟨header, start, hheader, hroom, hfailed | ⟨data, hdata⟩⟩
  · exact (Reader.blamesOctets_recordHeader _ _ _ hfailed).elim
  · exact (standard_blamesOctets _ _ _ _ _ _ hfailed).elim
  · have inPlace := (standard_decoderFor_eq_ok_iff hroom).1 hdata
    have hbounds := inPlace.bounds hroom
    rw [readRecord_of_decoded hheader hroom hdata] at h
    split at h
    · cases h
    · rename_i hastray
      rw [consumed_eq_iff (by omega) (by omega)] at hastray
      refine ⟨header, start, ⟨hheader, hroom, ⟨data, inPlace⟩, hastray⟩, ?_⟩
      simp only [EStateM.Result.error.injEq, ParseError.desync.injEq] at h
      exact h.1.1.symm

end

/-- With the standard decoders, one of them is taken to be at fault exactly where the
octets have a record whose fields do not end where its data does. What it took is
then what of the fields is in place. Such records are of the types whose fields have
a length of their own, and not of the others. -/
theorem Registry.standard_readRecord_desync_iff (hsize : m.size < UInt64.size) :
    (∀ type expected consumed stop,
      standard.readRecord m pos = .error (.desync type expected consumed) stop ↔
        ∃ (header : RecordHeader) (start : Nat), header.Misfits m pos start stop ∧
          type = header.type ∧ expected = header.dataLength ∧ start + consumed.toNat = stop) ∧
    ∀ (header : RecordHeader) (start stop : Nat), header.Misfits m pos start stop →
      header.type ∈ RecordType.ofFixedFields := by
  refine ⟨fun type expected consumed stop => ⟨fun h => ?_, ?_⟩,
    fun header start stop h => h.type_mem⟩
  · obtain ⟨header, start, hmisfits, -⟩ := misfits_of_desync hsize h
    obtain ⟨consumed', hcount, hread⟩ := readRecord_of_misfits hsize hmisfits
    rw [hread] at h
    simp only [EStateM.Result.error.injEq, ParseError.desync.injEq, and_true] at h
    obtain ⟨rfl, rfl, rfl⟩ := h
    exact ⟨header, start, hmisfits, rfl, rfl, hcount⟩
  · rintro ⟨header, start, hmisfits, rfl, rfl, hcount⟩
    obtain ⟨consumed', hcount', hread⟩ := readRecord_of_misfits hsize hmisfits
    obtain rfl : consumed' = consumed := UInt64.toNat_inj.1 (by omega)
    exact hread

/-- A name server's name is done after a pointer
of two octets, and a third one is announced. -/
theorem Registry.standard_desync_behind_pointer :
    let m : Octets := #[0, 0, 2, 0, 1, 0, 0, 0, 0, 0, 3, 0xC0, 0, 0]
    m.size < UInt64.size ∧ standard.readRecord m 0 = .error (.desync .ns 3 2) 13 := by
  intro m
  have hsize : m.size < UInt64.size := by decide
  have hheader : (⟨.root, .ns, .internet, 0, 3⟩ : RecordHeader).Occupies m 0 11 :=
    ⟨1, occupies_root (by decide), by decide, rfl⟩
  have hname : Name.root.Occupies m 11 13 :=
    occupies_of_pointer [] [] 0xC0 0 (by decide) (by decide) (by decide) (by decide)
  exact ⟨hsize, ((standard_readRecord_desync_iff hsize).1 _ _ _ _).2
    ⟨_, 11, ⟨hheader, by decide, ⟨.ns .root, .ns rfl hname⟩, by decide⟩, rfl, rfl, rfl⟩⟩

/-- An address in five octets is laid to the
decoder, although the octets are at fault. -/
theorem Registry.standard_desync_of_long_address :
    let m : Octets := #[0, 0, 1, 0, 1, 0, 0, 0, 0, 0, 5, 192, 0, 2, 1, 0]
    standard.readRecord m 0 = .error (.desync .a 5 4) 15 := by
  intro m
  have hheader : (⟨.root, .a, .internet, 0, 5⟩ : RecordHeader).Occupies m 0 11 :=
    ⟨1, occupies_root (by decide), by decide, rfl⟩
  have haddress : (RecordData.a ⟨#v[192, 0, 2, 1]⟩).InPlace m ⟨.root, .a, .internet, 0, 5⟩ 11 15 :=
    .a rfl (by decide)
  rw [readRecord_of_decoded hheader (by decide) (haddress.decoderFor_eq (by decide))]
  rfl

end StubResolver
