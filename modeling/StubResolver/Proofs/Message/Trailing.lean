import StubResolver.Proofs.Name.Lengths
import StubResolver.Proofs.Record.Consumption

/-!
# Octets behind a message

A message ends where its last record does, and what stands behind that is not read.
It has a part in the reading only through the length of the whole: that decides
whether what looks like a pointer is one. Where all pointers lead to within the
octets that are there, more octets behind these change nothing but the size.
-/

namespace StubResolver

open Name

/-! ## Which pointers are met -/

/-- The walk from a name's position comes to
what looks like a pointer to the target. -/
inductive Name.MeetsPointer (m : Octets) (pos : Nat) : Nat → Prop where
  | intro {labels : List Label} {behind : List Nat} {stop : Nat} {first second : UInt8}
      (walk : Walk m pos labels behind stop) (stands : StandsAt m stop [first, second])
      (mark : 0xC0 ≤ first.toNat) : MeetsPointer m pos (pointerTarget first second)

inductive RecordData.NameAt (m : Octets) (h : RecordHeader) (start : Nat) : Nat → Prop where
  | ns (type : h.type = .ns) : NameAt m h start start
  | cname (type : h.type = .cname) : NameAt m h start start
  | ptr (type : h.type = .ptr) : NameAt m h start start
  | mx (type : h.type = .mx) : NameAt m h start (start + 2)
  | primary (type : h.type = .soa) : NameAt m h start start
  | mailbox {primary : Name} {mid : Nat} (type : h.type = .soa)
      (before : primary.Occupies m start mid) : NameAt m h start mid

inductive Record.NameAt (m : Octets) (pos : Nat) : Nat → Prop where
  | owner : NameAt m pos pos
  | data {h : RecordHeader} {start place : Nat} (header : h.Occupies m pos start)
      (name : RecordData.NameAt m h start place) : NameAt m pos place

namespace Message

def QuestionRow (m : Octets) : Nat → List Question → Nat → Prop :=
  Tiles fun pos q next => q.Occupies m pos next

def RecordRow (m : Octets) : Nat → List Record → Nat → Prop :=
  Tiles fun pos r next => Registry.standard.readRecord m pos = .ok r next

/-- Where the names of a message stand: those of its questions, which begin behind
header and counts, and those of its records, which begin behind the questions. -/
inductive NameAt (m : Octets) (message : Message) : Nat → Prop where
  | question {done rest : List Question} {q : Question} {pos : Nat}
      (split : message.question = done ++ q :: rest)
      (before : QuestionRow m headerLength done pos) :
      NameAt m message pos
  | record {done rest : List Record} {r : Record} {first pos place : Nat}
      (questions : QuestionRow m headerLength message.question first)
      (split : message.allRecords = done ++ r :: rest) (before : RecordRow m first done pos)
      (name : Record.NameAt m pos place) : NameAt m message place

def MeetsPointer (m : Octets) (message : Message) (target : Nat) : Prop :=
  ∃ pos, message.NameAt m pos ∧ Name.MeetsPointer m pos target

end Message

/-! ## More octets -/

section

variable {m : Octets} (t : Octets) {pos next start stop : Nat}

theorem Name.StandsAt.append {os : List UInt8} (h : StandsAt m pos os) :
    StandsAt (m ++ t) pos os := by
  unfold StandsAt
  rw [Array.toList_append, List.drop_append]
  exact List.IsPrefix.trans h (List.prefix_append _ _)

theorem size_le_size_append (m : Octets) : m.size ≤ (m ++ t).size := by
  rw [Array.size_append]
  exact Nat.le_add_right _ _

theorem RecordHeader.dataAt_append {h : RecordHeader}
    (hroom : start + h.dataLength.toNat ≤ m.size) :
    h.dataAt (m ++ t) start = h.dataAt m start := by
  rw [dataAt, dataAt, Array.extract_append]
  simp [hroom]

/-! ### Names -/

theorem Name.meetsNoOversized_of_meetsPointer
    (h : ∀ target, MeetsPointer m pos target → target < m.size) : MeetsNoOversized m pos := by
  rintro labels behind stop walk ⟨first, second, stands, mark, beyond⟩
  exact Nat.not_lt.2 beyond (h _ (.intro walk stands mark))

theorem Name.LabelAt.append {content : Label} (h : LabelAt m pos content next)
    (hinside : ¬ OversizedAt m pos) : LabelAt (m ++ t) pos content next := by
  cases h with
  | short stands low high complete => exact .short (stands.append t) low high complete
  | @oversized first second rest stands mark beyond complete =>
      have hpair : StandsAt m pos [first, second] := List.IsPrefix.trans ⟨rest, rfl⟩ stands
      exact (hinside ⟨first, second, hpair, mark, beyond⟩).elim

theorem Name.PointerAt.append {target : Nat} (h : PointerAt m pos target) :
    PointerAt (m ++ t) pos target := by
  obtain ⟨stands, mark, within⟩ := h
  exact .intro (stands.append t) mark (within.trans_le (size_le_size_append t m))

theorem Name.Walk.append {labels : List Label} {behind : List Nat}
    (walk : Walk m pos labels behind stop) (hinside : MeetsNoOversized m pos) :
    Walk (m ++ t) pos labels behind stop := by
  induction walk with
  | here pos => exact .here pos
  | label first rest ih =>
      have hfirst := first.append t (hinside _ _ _ (.here _))
      exact .label hfirst (ih (hinside.after (.label first (.here _))))
  | pointer first rest ih =>
      exact .pointer (first.append t) (ih (hinside.after (.pointer first (.here _))))

theorem Name.Occupies.append {n : Name} (h : n.Occupies m pos next)
    (hinside : MeetsNoOversized m pos) : n.Occupies (m ++ t) pos next := by
  obtain ⟨behind, stop, walk, few, root, rfl⟩ := h
  exact ⟨behind, stop, walk.append t hinside, few, StandsAt.append t root, rfl⟩

/-! ### Questions and records -/

theorem Question.Occupies.append {q : Question} (h : q.Occupies m pos next)
    (hinside : MeetsNoOversized m pos) : q.Occupies (m ++ t) pos next := by
  obtain ⟨mid, hname, hfixed, rfl⟩ := h
  exact ⟨mid, hname.append t hinside, hfixed.append t, rfl⟩

theorem RecordHeader.Occupies.append {h : RecordHeader} (ho : h.Occupies m pos start)
    (hinside : MeetsNoOversized m pos) : h.Occupies (m ++ t) pos start := by
  obtain ⟨mid, howner, hfixed, rfl⟩ := ho
  exact ⟨mid, howner.append t hinside, hfixed.append t, rfl⟩

theorem RecordData.InPlace.append {h : RecordHeader} {data : RecordData}
    (inPlace : data.InPlace m h start stop) (hroom : start + h.dataLength.toNat ≤ m.size)
    (hinside : ∀ place, NameAt m h start place → MeetsNoOversized m place) :
    data.InPlace (m ++ t) h start stop := by
  have hdata := h.dataAt_append t hroom
  cases inPlace with
  | a type octets => exact .a type (octets.append t)
  | aaaa type octets => exact .aaaa type (octets.append t)
  | ns type name => exact .ns type (name.append t (hinside _ (.ns type)))
  | cname type name => exact .cname type (name.append t (hinside _ (.cname type)))
  | ptr type name => exact .ptr type (name.append t (hinside _ (.ptr type)))
  | mx type number name => exact .mx type (number.append t) (name.append t (hinside _ (.mx type)))
  | soa type primary mailbox numbers =>
      exact .soa type (primary.append t (hinside _ (.primary type)))
        (mailbox.append t (hinside _ (.mailbox type primary))) (numbers.append t)
  | txt type row => exact .txt type (hdata ▸ row)
  | opt type packed options => exact .opt type packed (hdata ▸ options)
  | unknown other => exact hdata ▸ .unknown other

theorem Registry.standard_readRecord_append {r : Record}
    (hread : standard.readRecord m pos = .ok r next)
    (hinside : ∀ place, Record.NameAt m pos place → MeetsNoOversized m place) :
    standard.readRecord (m ++ t) pos = .ok r next := by
  obtain ⟨start, hheader, hroom, hdata, hconsumed⟩ := readRecord_ok_cases hread
  have inPlace := RecordData.inPlace_of_decoderFor hroom hdata
  have hheader' := hheader.append t (hinside _ .owner)
  have hroom' := hroom.trans (size_le_size_append t m)
  have inPlace' := inPlace.append t hroom fun place hplace => hinside place (.data hheader hplace)
  rw [readRecord_of_decoded hheader' hroom' (inPlace'.decoderFor_eq hroom'), if_pos hconsumed]

/-! ### Messages -/

namespace Message

theorem LaidOut.append {message : Message} (h : message.LaidOut .standard m)
    (hinside : ∀ pos, message.NameAt m pos → MeetsNoOversized m pos) :
    { message with size := m.size + t.size }.LaidOut .standard (m ++ t) := by
  obtain ⟨a, _, _, d, hquestion, hanswer, hauthority, hadditional⟩ := h.rows
  have hquestion' : QuestionRow (m ++ t) headerLength message.question a := by
    refine hquestion.mono_of_split fun done q rest pos next split before stands => ?_
    exact stands.append t (hinside pos (.question split before))
  have hrecords' : RecordRow (m ++ t) a message.allRecords d := by
    refine ((hanswer.append hauthority).append hadditional).mono_of_split
      fun done r rest pos next split before hread => ?_
    exact Registry.standard_readRecord_append t hread fun place hplace =>
      hinside place (.record hquestion split before hplace)
  obtain ⟨c', hrecords', hadditional'⟩ := Tiles.of_append hrecords'
  obtain ⟨b', hanswer', hauthority'⟩ := Tiles.of_append hrecords'
  exact ⟨h.start.append t, h.questions, h.answers, h.authorities, h.additionals,
    ⟨a, b', c', d, hquestion', hanswer', hauthority', hadditional'⟩, Array.size_append.symm⟩

/-- Octets behind a message that is read change nothing but
its size, unless some pointer that is met leads out of it. -/
theorem ofOctets_append {message : Message} (hread : ofOctets .standard m = .ok message)
    (hwithin : ∀ target, message.MeetsPointer m target → target < m.size) :
    ofOctets .standard (m ++ t) = .ok { message with size := m.size + t.size } := by
  rw [ofOctets_eq_ok_iff_laidOut] at hread ⊢
  exact hread.append t fun pos hpos =>
    meetsNoOversized_of_meetsPointer fun target hmeets => hwithin target ⟨pos, hpos, hmeets⟩

/-- The owner of the answer points back into the question,
and behind the answer stands another pointer. -/
theorem ofOctets_append_compressed_answer :
    let octets : Octets :=
      #[0x12, 0x34, 0x81, 0x80, 0, 1, 0, 1, 0, 0, 0, 0, 1, 0x61, 0, 0, 1, 0, 1,
        0xC0, 12, 0, 1, 0, 1, 0, 0, 0, 30, 0, 4, 192, 0, 2, 1]
    let message : Message :=
      { header := ⟨0x1234, 0x8180⟩
        counts := ⟨1, 1, 0, 0⟩
        question := [⟨⟨[[0x61]]⟩, .a, .internet⟩]
        answer := [⟨⟨⟨[[0x61]]⟩, .a, .internet, 30, 4⟩, .a ⟨#v[192, 0, 2, 1]⟩⟩]
        authority := []
        additional := []
        size := 35 }
    ofOctets .standard octets = .ok message ∧
      (∀ target, message.MeetsPointer octets target → target < octets.size) ∧
      ofOctets .standard (octets ++ #[0xC0, 12, 0xFF]) = .ok { message with size := 38 } := by
  intro octets message
  have hname : (⟨[[0x61]]⟩ : Name).Occupies octets 12 15 :=
    occupies_of_standsAt_labelOctets (by decide) (by decide)
  have howner : (⟨[[0x61]]⟩ : Name).Occupies octets 19 21 :=
    occupies_of_pointer [] [[0x61]] 0xC0 12 (by decide) (by decide) (by decide) (by decide)
  have hread : ofOctets .standard octets = .ok message := Message.Framed.ofOctets_eq {
    start := by decide
    questions := rfl
    answers := rfl
    authorities := rfl
    additionals := rfl
    tiles := ⟨19, 35, 35, 35, .cons ⟨15, hname, by decide, rfl⟩ (.nil _),
      .cons ⟨31, ⟨21, howner, by decide, rfl⟩, rfl, rfl, by decide⟩ (.nil _), .nil _, .nil _,
      by decide⟩
    size := rfl }
  -- wherever the octets of a pointer stand, they lead to somewhere within the message
  have hpairs : ∀ stop < 34, 0xC0 ≤ (octets.getD stop 0).toNat →
      pointerTarget (octets.getD stop 0) (octets.getD (stop + 1) 0) < octets.size := by
    decide
  have hwithin : ∀ target, message.MeetsPointer octets target → target < octets.size := by
    rintro _ ⟨pos, -, @⟨labels, behind, stop, first, second, -, stands, mark⟩⟩
    have hstop : stop + 2 ≤ 35 := stands.length_le (List.cons_ne_nil _ _)
    obtain ⟨hfirst, hsecond⟩ := standsAt_pair.1 stands
    have hpair := hpairs stop (by omega)
    rw [Array.getD_eq_getD_getElem?, Array.getD_eq_getD_getElem?, hfirst, hsecond] at hpair
    exact hpair mark
  exact ⟨hread, hwithin, ofOctets_append #[0xC0, 12, 0xFF] hread hwithin⟩

end Message

end

end StubResolver
