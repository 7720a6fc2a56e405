import StubResolver.Message.Basic
import StubResolver.Proofs.Record.Advancing

/-!
# How messages are framed

Behind the twelve octets of header and counts, questions and records follow one
another without gaps. A record occupies its owner, ten octets of fixed length, and as
many octets of data as these say. Decoders have no part in that: which octets a
record occupies is the same whatever its data is decoded to, and octets that are
decoded at all can be decoded to records that keep their data as it is.
-/

namespace StubResolver

open Name

/-! ## What questions and records occupy -/

def Header.octets (h : Header) : List UInt8 := Wire.octets16 h.id ++ Wire.octets16 h.bits

def SectionCounts.octets (c : SectionCounts) : List UInt8 :=
  Wire.octets16 c.question ++ Wire.octets16 c.answer ++ Wire.octets16 c.authority
    ++ Wire.octets16 c.additional

def Question.fixedOctets (q : Question) : List UInt8 :=
  Wire.octets16 q.type.code ++ Wire.octets16 q.recordClass.code

def RecordHeader.fixedOctets (h : RecordHeader) : List UInt8 :=
  Wire.octets16 h.type.code ++ Wire.octets16 h.recordClass.code ++ Wire.octets32 h.ttl.toUInt32
    ++ Wire.octets16 h.dataLength

def Question.Occupies (q : Question) (m : Octets) (pos next : Nat) : Prop :=
  ∃ mid, q.name.Occupies m pos mid ∧ StandsAt m mid q.fixedOctets ∧ next = mid + 4

def RecordHeader.Occupies (h : RecordHeader) (m : Octets) (pos start : Nat) : Prop :=
  ∃ mid, h.owner.Occupies m pos mid ∧ StandsAt m mid h.fixedOctets ∧ start = mid + 10

abbrev DataRule := RecordHeader → Nat → RecordData → Prop

def DataRule.any : DataRule := fun _ _ _ => True

def Registry.Decodes (r : Registry) (m : Octets) : DataRule := fun h start data =>
  r.decoderFor h.type h m start = .ok data (start + h.dataLength.toNat)

def RecordData.Keeps (m : Octets) : DataRule := fun h start data =>
  data = .unknown h.type (m.extract start (start + h.dataLength.toNat)).toList

def Record.Occupies (rule : DataRule) (r : Record) (m : Octets) (pos next : Nat) : Prop :=
  ∃ start, r.header.Occupies m pos start ∧ rule r.header start r.data ∧
    next = start + r.header.dataLength.toNat ∧ next ≤ m.size

/-- The message is laid out in the octets: header and counts, and then questions and
records, as many as announced, each where the one before it ends. -/
structure Message.Framed (rule : DataRule) (m : Octets) (message : Message) : Prop where
  start : StandsAt m 0 (message.header.octets ++ message.counts.octets)
  questions : message.question.length = message.counts.question.toNat
  answers : message.answer.length = message.counts.answer.toNat
  authorities : message.authority.length = message.counts.authority.toNat
  additionals : message.additional.length = message.counts.additional.toNat
  tiles : ∃ a b c d, Tiles (fun pos q next => q.Occupies m pos next) 12 message.question a ∧
    Tiles (fun pos r next => r.Occupies rule m pos next) a message.answer b ∧
    Tiles (fun pos r next => r.Occupies rule m pos next) b message.authority c ∧
    Tiles (fun pos r next => r.Occupies rule m pos next) c message.additional d ∧ d ≤ m.size
  size : message.size = m.size

/-- As `Framed`, but each record is what the registry reads where it stands. -/
structure Message.LaidOut (r : Registry) (m : Octets) (message : Message) : Prop where
  start : StandsAt m 0 (message.header.octets ++ message.counts.octets)
  questions : message.question.length = message.counts.question.toNat
  answers : message.answer.length = message.counts.answer.toNat
  authorities : message.authority.length = message.counts.authority.toNat
  additionals : message.additional.length = message.counts.additional.toNat
  rows : ∃ a b c d, Tiles (fun pos q next => q.Occupies m pos next) 12 message.question a ∧
    Tiles (fun pos record next => r.readRecord m pos = .ok record next) a message.answer b ∧
    Tiles (fun pos record next => r.readRecord m pos = .ok record next) b message.authority c ∧
    Tiles (fun pos record next => r.readRecord m pos = .ok record next) c message.additional d
  size : message.size = m.size

/-! ## Reading what is there -/

section

variable {m : Octets} {pos next : Nat}

theorem RecordType.read_eq_ok_iff {t : RecordType} :
    RecordType.read m pos = .ok t next ↔
      StandsAt m pos (Wire.octets16 t.code) ∧ next = pos + 2 := by
  unfold RecordType.read
  rw [Reader.bind_eq_ok_iff]
  simp only [Reader.pure_eq_ok_iff, Reader.u16_eq_ok_iff]
  grind

theorem RecordClass.read_eq_ok_iff {c : RecordClass} :
    RecordClass.read m pos = .ok c next ↔
      StandsAt m pos (Wire.octets16 c.code) ∧ next = pos + 2 := by
  unfold RecordClass.read
  rw [Reader.bind_eq_ok_iff]
  simp only [Reader.pure_eq_ok_iff, Reader.u16_eq_ok_iff]
  grind

theorem Header.read_eq_ok_iff {h : Header} :
    Header.read m pos = .ok h next ↔ StandsAt m pos h.octets ∧ next = pos + 4 := by
  unfold Header.read Header.octets
  simp only [Reader.bind_eq_ok_iff, Reader.pure_eq_ok_iff, Reader.u16_eq_ok_iff,
    standsAt_append_iff]
  constructor
  · rintro ⟨id, _, ⟨hid, rfl⟩, bits, _, ⟨hbits, rfl⟩, rfl, rfl⟩
    exact ⟨⟨hid, hbits⟩, rfl⟩
  · rintro ⟨⟨hid, hbits⟩, rfl⟩
    exact ⟨h.id, _, ⟨hid, rfl⟩, h.bits, _, ⟨hbits, rfl⟩, rfl, rfl⟩

theorem SectionCounts.read_eq_ok_iff {c : SectionCounts} :
    SectionCounts.read m pos = .ok c next ↔ StandsAt m pos c.octets ∧ next = pos + 8 := by
  unfold SectionCounts.read SectionCounts.octets
  simp only [Reader.bind_eq_ok_iff, Reader.pure_eq_ok_iff, Reader.u16_eq_ok_iff,
    standsAt_append_iff]
  constructor
  · rintro ⟨qd, _, ⟨hqd, rfl⟩, an, _, ⟨han, rfl⟩, ns, _, ⟨hns, rfl⟩, ar, _, ⟨har, rfl⟩, rfl, rfl⟩
    exact ⟨⟨⟨⟨hqd, han⟩, hns⟩, har⟩, rfl⟩
  · rintro ⟨⟨⟨⟨hqd, han⟩, hns⟩, har⟩, rfl⟩
    exact ⟨_, _, ⟨hqd, rfl⟩, _, _, ⟨han, rfl⟩, _, _, ⟨hns, rfl⟩, _, _, ⟨har, rfl⟩, rfl, rfl⟩

theorem Question.read_eq_ok_iff {q : Question} :
    Question.read m pos = .ok q next ↔ q.Occupies m pos next := by
  unfold Question.read Question.Occupies Question.fixedOctets
  simp only [Reader.bind_eq_ok_iff, Reader.pure_eq_ok_iff, Name.read_eq_ok_iff,
    RecordType.read_eq_ok_iff, RecordClass.read_eq_ok_iff, standsAt_append_iff]
  constructor
  · rintro ⟨name, mid, hname, type, _, ⟨htype, rfl⟩, cls, _, ⟨hclass, rfl⟩, rfl, rfl⟩
    exact ⟨mid, hname, ⟨htype, hclass⟩, rfl⟩
  · rintro ⟨mid, hname, ⟨htype, hclass⟩, rfl⟩
    exact ⟨_, mid, hname, _, _, ⟨htype, rfl⟩, _, _, ⟨hclass, rfl⟩, rfl, rfl⟩

theorem RecordHeader.read_eq_ok_iff {h : RecordHeader} :
    RecordHeader.read m pos = .ok h next ↔ h.Occupies m pos next := by
  unfold RecordHeader.read RecordHeader.Occupies RecordHeader.fixedOctets
  simp only [Reader.bind_eq_ok_iff, Reader.pure_eq_ok_iff, Name.read_eq_ok_iff,
    RecordType.read_eq_ok_iff, RecordClass.read_eq_ok_iff, Reader.i32_eq_ok_iff,
    Reader.u16_eq_ok_iff, standsAt_append_iff]
  constructor
  · rintro ⟨owner, mid, howner, type, _, ⟨htype, rfl⟩, cls, _, ⟨hclass, rfl⟩, ttl, _, ⟨httl, rfl⟩,
      length, _, ⟨hlength, rfl⟩, rfl, rfl⟩
    exact ⟨mid, howner, ⟨⟨⟨htype, hclass⟩, httl⟩, hlength⟩, rfl⟩
  · rintro ⟨mid, howner, ⟨⟨⟨htype, hclass⟩, httl⟩, hlength⟩, rfl⟩
    exact ⟨_, mid, howner, _, _, ⟨htype, rfl⟩, _, _, ⟨hclass, rfl⟩, _, _, ⟨httl, rfl⟩, _, _,
      ⟨hlength, rfl⟩, rfl, rfl⟩

theorem RecordData.readUnknown_eq_ok_iff {h : RecordHeader} {data : RecordData} :
    readUnknown h m pos = .ok data next ↔
      Keeps m h pos data ∧ pos + h.dataLength.toNat ≤ m.size ∧
        next = pos + h.dataLength.toNat := by
  unfold readUnknown Keeps
  rw [Reader.map_eq_ok_iff]
  simp only [Reader.take_eq_ok_iff]
  constructor
  · rintro ⟨os, ⟨hstands, hlength, hle, rfl⟩, rfl⟩
    rw [(standsAt_iff_extract hlength hle).1 hstands]
    exact ⟨rfl, hle, rfl⟩
  · rintro ⟨rfl, hle, rfl⟩
    refine ⟨_, ⟨standsAt_extract hle, ?_, hle, rfl⟩, rfl⟩
    simp
    omega

theorem Registry.decodes_empty_iff {h : RecordHeader} {start : Nat} {data : RecordData}
    (hle : start + h.dataLength.toNat ≤ m.size) :
    empty.Decodes m h start data ↔ RecordData.Keeps m h start data := by
  have hread : empty.Decodes m h start data ↔ _ := RecordData.readUnknown_eq_ok_iff
  rw [hread]
  exact ⟨fun h => h.1, fun h => ⟨h, hle, rfl⟩⟩

theorem Registry.AdvancesIn.decoderFor {r : Registry} (hadvances : r.AdvancesIn m)
    (type : RecordType) : (r.decoderFor type).AdvancesIn m := by
  refine decoderFor_of_forall hadvances (fun header pos data next hread => ?_) type
  obtain ⟨-, -, rfl⟩ := RecordData.readUnknown_eq_ok_iff.1 hread
  exact ⟨header.dataLength.toUInt64, by simp⟩

theorem toUInt64_add_sub (start count : Nat) :
    (start + count).toUInt64 - start.toUInt64 = count.toUInt64 := by
  change UInt64.ofNat (start + count) - UInt64.ofNat start = UInt64.ofNat count
  rw [UInt64.ofNat_add, UInt64.add_comm, UInt64.add_sub_cancel]

theorem Registry.readRecord_of_occupies {r : Registry} {record : Record}
    (h : record.Occupies (r.Decodes m) m pos next) : r.readRecord m pos = .ok record next := by
  obtain ⟨start, hheader, hdata, rfl, hle⟩ := h
  unfold Registry.readRecord
  simp only [Reader.bind_eq_ok_iff, RecordHeader.read_eq_ok_iff, Reader.require_eq_ok_iff,
    Reader.position_eq_ok_iff]
  refine ⟨record.header, start, hheader, (), start, ⟨hle, rfl⟩, start, start, ⟨rfl, rfl⟩,
    record.data, _, hdata, _, _, ⟨rfl, rfl⟩, ?_⟩
  have hconsumed : (start + record.header.dataLength.toNat).toUInt64 - start.toUInt64 =
      record.header.dataLength.toUInt64 := by
    rw [toUInt64_add_sub]
    exact UInt64.toNat_inj.1 (by simp)
  rw [if_pos hconsumed, Reader.pure_eq_ok_iff]
  exact ⟨rfl, rfl⟩

theorem Registry.readRecord_ok_cases {r : Registry} {record : Record}
    (h : r.readRecord m pos = .ok record next) :
    ∃ start, record.header.Occupies m pos start ∧
      start + record.header.dataLength.toNat ≤ m.size ∧
      r.decoderFor record.header.type record.header m start = .ok record.data next ∧
      next.toUInt64 - start.toUInt64 = record.header.dataLength.toUInt64 := by
  unfold Registry.readRecord at h
  simp only [Reader.bind_eq_ok_iff, RecordHeader.read_eq_ok_iff, Reader.require_eq_ok_iff,
    Reader.position_eq_ok_iff] at h
  obtain ⟨header, start, hheader, -, _, ⟨hle, rfl⟩, _, _, ⟨rfl, rfl⟩, data, stop, hdata, _, _,
    ⟨rfl, rfl⟩, hend⟩ := h
  split at hend
  · rename_i hconsumed
    obtain ⟨rfl, rfl⟩ := Reader.pure_eq_ok_iff.1 hend
    exact ⟨_, hheader, hle, hdata, hconsumed⟩
  · cases hend

theorem Registry.AdvancesIn.occupies_of_readRecord {r : Registry} (hadvances : r.AdvancesIn m)
    {record : Record} (h : r.readRecord m pos = .ok record next) :
    record.Occupies (r.Decodes m) m pos next := by
  obtain ⟨start, hheader, hle, hdata, hconsumed⟩ := readRecord_ok_cases h
  obtain ⟨count, rfl⟩ := hadvances.decoderFor record.header.type _ _ _ _ hdata
  have hcount : count.toNat = record.header.dataLength.toNat := by
    rw [toUInt64_add_sub] at hconsumed
    simpa using congrArg UInt64.toNat hconsumed
  rw [hcount] at hdata ⊢
  exact ⟨start, hheader, hdata, rfl, hle⟩

theorem Question.Occupies.le {q : Question} (h : q.Occupies m pos next) : next ≤ m.size := by
  obtain ⟨mid, -, hfixed, rfl⟩ := h
  exact hfixed.length_le (List.cons_ne_nil _ _)

theorem Record.Occupies.le {rule : DataRule} {r : Record} (h : r.Occupies rule m pos next) :
    next ≤ m.size := by
  obtain ⟨start, -, -, -, hle⟩ := h
  exact hle

theorem Message.ofOctets_eq_ok_iff_read {r : Registry} {message : Message} :
    ofOctets r m = .ok message ↔ ∃ next, read r m.size m 0 = .ok message next := by
  unfold ofOctets Reader.runAt
  cases read r m.size m 0 <;> simp

theorem Message.ofOctets_eq_ok_iff_laidOut {r : Registry} {message : Message} :
    ofOctets r m = .ok message ↔ message.LaidOut r m := by
  rw [ofOctets_eq_ok_iff_read]
  unfold read
  simp only [Reader.bind_eq_ok_iff, Header.read_eq_ok_iff, SectionCounts.read_eq_ok_iff,
    Reader.repeated_eq_ok_iff, Question.read_eq_ok_iff, Reader.pure_eq_ok_iff]
  constructor
  · rintro ⟨_, header, _, ⟨hheader, rfl⟩, counts, _, ⟨hcounts, rfl⟩,
      question, a, ⟨hquestions, hquestion⟩, answer, b, ⟨hanswers, hanswer⟩,
      authority, c, ⟨hauthorities, hauthority⟩, additional, d, ⟨hadditionals, hadditional⟩, rfl, -⟩
    have hstart := standsAt_append_iff.2 ⟨hheader, hcounts⟩
    exact ⟨hstart, hquestions, hanswers, hauthorities, hadditionals,
      ⟨a, b, c, d, hquestion, hanswer, hauthority, hadditional⟩, rfl⟩
  · intro h
    obtain ⟨hheader, hcounts⟩ := standsAt_append_iff.1 h.start
    obtain ⟨a, b, c, d, hquestion, hanswer, hauthority, hadditional⟩ := h.rows
    obtain ⟨header, counts, question, answer, authority, additional, size⟩ := message
    refine ⟨d, header, _, ⟨hheader, rfl⟩, counts, _, ⟨hcounts, rfl⟩,
      question, a, ⟨h.questions, hquestion⟩, answer, b, ⟨h.answers, hanswer⟩,
      authority, c, ⟨h.authorities, hauthority⟩, additional, d, ⟨h.additionals, hadditional⟩,
      ?_, rfl⟩
    rw [← h.size]

theorem Message.standsAt_header {r : Registry} {message : Message}
    (h : ofOctets r m = .ok message) : StandsAt m 0 message.header.octets :=
  (standsAt_append_iff.1 (ofOctets_eq_ok_iff_laidOut.1 h).start).1

theorem Message.Framed.ofOctets_eq {r : Registry} {message : Message}
    (h : message.Framed (r.Decodes m) m) : ofOctets r m = .ok message := by
  obtain ⟨a, b, c, d, hquestion, hanswer, hauthority, hadditional, -⟩ := h.tiles
  have hrecords : ∀ pos (record : Record) next, record.Occupies (r.Decodes m) m pos next →
      r.readRecord m pos = .ok record next := fun _ _ _ => r.readRecord_of_occupies
  exact ofOctets_eq_ok_iff_laidOut.2 ⟨h.start, h.questions, h.answers, h.authorities, h.additionals,
    ⟨a, b, c, d, hquestion, hanswer.mono hrecords, hauthority.mono hrecords,
      hadditional.mono hrecords⟩, h.size⟩

theorem Registry.AdvancesIn.framed {r : Registry} (hadvances : r.AdvancesIn m) {message : Message}
    (h : Message.ofOctets r m = .ok message) : message.Framed (r.Decodes m) m := by
  have hrecords : ∀ pos (record : Record) next, r.readRecord m pos = .ok record next →
      record.Occupies (r.Decodes m) m pos next := fun _ _ _ => hadvances.occupies_of_readRecord
  have hlaid := Message.ofOctets_eq_ok_iff_laidOut.1 h
  obtain ⟨a, b, c, d, hquestion, hanswer, hauthority, hadditional⟩ := hlaid.rows
  have hanswer := hanswer.mono hrecords
  have hauthority := hauthority.mono hrecords
  have hadditional := hadditional.mono hrecords
  have hstart : 12 ≤ m.size := hlaid.start.length_le (List.cons_ne_nil _ _)
  have ha : a ≤ m.size := hquestion.end_of_step hstart fun _ _ _ => Question.Occupies.le
  have hb : b ≤ m.size := hanswer.end_of_step ha fun _ _ _ => Record.Occupies.le
  have hc : c ≤ m.size := hauthority.end_of_step hb fun _ _ _ => Record.Occupies.le
  have hd : d ≤ m.size := hadditional.end_of_step hc fun _ _ _ => Record.Occupies.le
  exact ⟨hlaid.start, hlaid.questions, hlaid.answers, hlaid.authorities, hlaid.additionals,
    ⟨a, b, c, d, hquestion, hanswer, hauthority, hadditional, hd⟩, hlaid.size⟩

end

/-! ## What the octets alone decide -/

/-- The messages differ in the data of their records at most. -/
structure Message.SameFrame (a b : Message) : Prop where
  header : a.header = b.header
  counts : a.counts = b.counts
  question : a.question = b.question
  answer : a.answer.map Record.header = b.answer.map Record.header
  authority : a.authority.map Record.header = b.authority.map Record.header
  additional : a.additional.map Record.header = b.additional.map Record.header
  size : a.size = b.size

section

variable {m : Octets} {pos next next' : Nat}

theorem Header.octets_injective : Function.Injective octets := by
  rintro ⟨id, bits⟩ ⟨id', bits'⟩ h
  obtain ⟨hid, hbits⟩ := List.append_inj h rfl
  rw [mk.injEq]
  exact ⟨Wire.octets16_injective hid, Wire.octets16_injective hbits⟩

theorem SectionCounts.octets_injective : Function.Injective octets := by
  rintro ⟨qd, an, ns, ar⟩ ⟨qd', an', ns', ar'⟩ h
  obtain ⟨h, har⟩ := List.append_inj h rfl
  obtain ⟨h, hns⟩ := List.append_inj h rfl
  obtain ⟨hqd, han⟩ := List.append_inj h rfl
  rw [mk.injEq]
  exact ⟨Wire.octets16_injective hqd, Wire.octets16_injective han, Wire.octets16_injective hns,
    Wire.octets16_injective har⟩

theorem Question.Occupies.unique {q q' : Question} (h : q.Occupies m pos next)
    (h' : q'.Occupies m pos next') : q = q' ∧ next = next' := by
  rw [← Question.read_eq_ok_iff] at h h'
  rw [h] at h'
  exact EStateM.Result.ok.inj h'

theorem RecordHeader.Occupies.unique {h h' : RecordHeader} (ho : h.Occupies m pos next)
    (ho' : h'.Occupies m pos next') : h = h' ∧ next = next' := by
  rw [← RecordHeader.read_eq_ok_iff] at ho ho'
  rw [ho] at ho'
  exact EStateM.Result.ok.inj ho'

theorem Record.Occupies.unique {rule rule' : DataRule} {r r' : Record}
    (h : r.Occupies rule m pos next) (h' : r'.Occupies rule' m pos next') :
    r.header = r'.header ∧ next = next' := by
  obtain ⟨start, hheader, -, rfl, -⟩ := h
  obtain ⟨start', hheader', -, rfl, -⟩ := h'
  obtain ⟨heq, rfl⟩ := hheader.unique hheader'
  rw [heq]
  exact ⟨rfl, rfl⟩

theorem Message.Framed.sameFrame {rule rule' : DataRule} {a b : Message} (h : a.Framed rule m)
    (h' : b.Framed rule' m) : a.SameFrame b := by
  have hstart := h.start.eq_of_length_eq h'.start rfl
  obtain ⟨hheader, hcounts⟩ := List.append_inj hstart rfl
  have hcounts := SectionCounts.octets_injective hcounts
  obtain ⟨q, an, ns, ar, hquestion, hanswer, hauthority, hadditional, -⟩ := h.tiles
  obtain ⟨q', an', ns', ar', hquestion', hanswer', hauthority', hadditional', -⟩ := h'.tiles
  obtain ⟨hq, rfl⟩ := hquestion.unique (fun q => q) hquestion'
    (by rw [h.questions, h'.questions, hcounts]) fun h h' => h.unique h'
  obtain ⟨han, rfl⟩ := hanswer.unique Record.header hanswer'
    (by rw [h.answers, h'.answers, hcounts]) fun h h' => h.unique h'
  obtain ⟨hns, rfl⟩ := hauthority.unique Record.header hauthority'
    (by rw [h.authorities, h'.authorities, hcounts]) fun h h' => h.unique h'
  obtain ⟨har, rfl⟩ := hadditional.unique Record.header hadditional'
    (by rw [h.additionals, h'.additionals, hcounts]) fun h h' => h.unique h'
  exact ⟨Header.octets_injective hheader, hcounts, by simpa using hq, han, hns, har,
    h.size.trans h'.size.symm⟩

theorem Record.Occupies.keep {rule : DataRule} {r : Record} (h : r.Occupies rule m pos next) :
    ∃ raw : Record, raw.Occupies (RecordData.Keeps m) m pos next := by
  obtain ⟨start, hheader, -, hnext, hle⟩ := h
  let octets := (m.extract start (start + r.header.dataLength.toNat)).toList
  exact ⟨⟨r.header, .unknown r.header.type octets⟩, start, hheader, rfl, hnext, hle⟩

theorem Message.Framed.keep {rule : DataRule} {message : Message} (h : message.Framed rule m) :
    ∃ raw : Message, raw.Framed (RecordData.Keeps m) m := by
  obtain ⟨a, b, c, d, hquestion, hanswer, hauthority, hadditional, hle⟩ := h.tiles
  obtain ⟨answer, hanswers, hanswer⟩ := hanswer.replace fun _ _ _ => Record.Occupies.keep
  obtain ⟨authority, hauthorities, hauthority⟩ :=
    hauthority.replace fun _ _ _ => Record.Occupies.keep
  obtain ⟨additional, hadditionals, hadditional⟩ :=
    hadditional.replace fun _ _ _ => Record.Occupies.keep
  exact ⟨{ message with answer, authority, additional }, h.start, h.questions,
    hanswers.trans h.answers, hauthorities.trans h.authorities, hadditionals.trans h.additionals,
    ⟨a, b, c, d, hquestion, hanswer, hauthority, hadditional, hle⟩, h.size⟩

theorem Record.Occupies.mono {rule rule' : DataRule} {r : Record} (h : r.Occupies rule m pos next)
    (hrule : ∀ header start data, start + header.dataLength.toNat ≤ m.size →
      rule header start data → rule' header start data) : r.Occupies rule' m pos next := by
  obtain ⟨start, hheader, hdata, rfl, hle⟩ := h
  exact ⟨start, hheader, hrule _ _ _ hle hdata, rfl, hle⟩

theorem Message.Framed.mono {rule rule' : DataRule} {message : Message}
    (h : message.Framed rule m)
    (hrule : ∀ header start data, start + header.dataLength.toNat ≤ m.size →
      rule header start data → rule' header start data) : message.Framed rule' m := by
  obtain ⟨a, b, c, d, hquestion, hanswer, hauthority, hadditional, hle⟩ := h.tiles
  have hrecords : ∀ pos (r : Record) next, r.Occupies rule m pos next →
      r.Occupies rule' m pos next := fun _ _ _ h => h.mono hrule
  exact ⟨h.start, h.questions, h.answers, h.authorities, h.additionals,
    ⟨a, b, c, d, hquestion, hanswer.mono hrecords, hauthority.mono hrecords,
      hadditional.mono hrecords, hle⟩, h.size⟩

end

/-- Decoders that only move forward have no part in the framing of a message: what
they read is laid out in the octets, any others of the kind that read the octets
agree in all but the data of the records, and without any decoders the octets are
read too, each record with its data as it is. -/
theorem Message.framing_of_ofOctets {registry : Registry} {octets : Octets} {message : Message}
    (hadvances : registry.AdvancesIn octets) (hread : ofOctets registry octets = .ok message) :
    message.Framed .any octets ∧
      (∀ (other : Registry) (message' : Message), other.AdvancesIn octets →
        ofOctets other octets = .ok message' → message'.SameFrame message) ∧
      ∃ raw : Message, ofOctets .empty octets = .ok raw ∧
        raw.Framed (RecordData.Keeps octets) octets := by
  have hframed := hadvances.framed hread
  refine ⟨hframed.mono fun _ _ _ _ _ => trivial, fun other message' hother hread' => ?_, ?_⟩
  · exact (hother.framed hread').sameFrame hframed
  · obtain ⟨raw, hraw⟩ := hframed.keep
    refine ⟨raw, Message.Framed.ofOctets_eq (hraw.mono ?_), hraw⟩
    exact fun _ _ _ hle hkeeps => (Registry.decodes_empty_iff hle).2 hkeeps

/-- An answer whose owner points back into the question, and an OPT record. -/
theorem Message.framing_of_compressed_answer :
    let octets : Octets :=
      #[0x12, 0x34, 0x81, 0x80, 0, 1, 0, 1, 0, 0, 0, 1, 1, 0x61, 0, 0, 1, 0, 1,
        0xC0, 12, 0, 1, 0, 1, 0, 0, 0, 30, 0, 4, 192, 0, 2, 1,
        0, 0, 41, 16, 0, 0, 0, 0, 0, 0, 0]
    let message : Message :=
      { header := ⟨0x1234, 0x8180⟩
        counts := ⟨1, 1, 0, 1⟩
        question := [⟨⟨[[0x61]]⟩, .a, .internet⟩]
        answer := [⟨⟨⟨[[0x61]]⟩, .a, .internet, 30, 4⟩, .a ⟨#v[192, 0, 2, 1]⟩⟩]
        authority := []
        additional := [⟨⟨.root, .opt, ⟨4096⟩, 0, 0⟩, .opt ⟨4096, 0, 0, false, []⟩⟩]
        size := 46 }
    Registry.standard.AdvancesIn octets ∧ ofOctets .standard octets = .ok message ∧
      message.Framed .any octets ∧
      (∀ (other : Registry) (message' : Message), other.AdvancesIn octets →
        ofOctets other octets = .ok message' → message'.SameFrame message) ∧
      ∃ raw : Message, ofOctets .empty octets = .ok raw ∧
        raw.Framed (RecordData.Keeps octets) octets := by
  intro octets message
  have hadvances : Registry.standard.AdvancesIn octets := Registry.standard_advancesIn (by decide)
  have hname : (⟨[[0x61]]⟩ : Name).Occupies octets 12 15 :=
    occupies_of_standsAt_labelOctets (by decide) (by decide)
  have howner : (⟨[[0x61]]⟩ : Name).Occupies octets 19 21 :=
    occupies_of_pointer [] [[0x61]] 0xC0 12 (by decide) (by decide) (by decide) (by decide)
  have hread : ofOctets .standard octets = .ok message := Message.Framed.ofOctets_eq {
    start := by decide
    questions := rfl
    answers := rfl
    authorities := rfl
    additionals := rfl
    tiles := ⟨19, 35, 35, 46, .cons ⟨15, hname, by decide, rfl⟩ (.nil _),
      .cons ⟨31, ⟨21, howner, by decide, rfl⟩, rfl, rfl, by decide⟩ (.nil _), .nil _,
      .cons ⟨46, ⟨36, occupies_root (by decide), by decide, rfl⟩, rfl, rfl, by decide⟩ (.nil _),
      by decide⟩
    size := rfl }
  exact ⟨hadvances, hread, Message.framing_of_ofOctets hadvances hread⟩

end StubResolver
