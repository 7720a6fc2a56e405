import StubResolver.Proofs.Message.RoundTrip
import StubResolver.Proofs.Wire.Fields

/-!
# What a composer holds

Whatever is written to a composer, and changed in it, it never holds more than its
capacity. What there is room for is put behind the rest, always as the same octets.
Where the room runs out, or an argument is not valid, the fields before that have
been written: none of an integer, a slice or a name, and some of a question, header,
OPT record or request.
-/

namespace StubResolver

open Writer

inductive Content where
  | u8 (v : UInt8)
  | u16 (v : UInt16)
  | u32 (v : UInt32)
  | slice (os : List UInt8)
  | labels (ls : List Label)
  | hostName (text : String)
  | name (n : Name)
  | question (q : Question)
  | header (h : Header)
  | counts (c : SectionCounts)
  | opt (o : Opt)
  | request (r : Request)

namespace Content

def write : Content → Writer
  | u8 v => Writer.u8 v
  | u16 v => Writer.u16 v
  | u32 v => Writer.u32 v
  | slice os => Writer.octets os
  | labels ls => Writer.labels ls
  | hostName text => Writer.hostName text
  | name n => n.write
  | question q => q.write
  | header h => h.write
  | counts c => c.write
  | opt o => o.write
  | request r => r.write

def octets : Content → List UInt8
  | u8 v => [v]
  | u16 v => Wire.octets16 v
  | u32 v => Wire.octets32 v
  | slice os => os
  | labels ls => labelOctets ls
  | hostName text => labelOctets (hostLabels text)
  | name n => labelOctets n.labels
  | question q => q.octets
  | header h => h.octets
  | counts c => c.octets
  | opt o => o.octets
  | request r => r.octets

def ValidLabels (ls : List Label) : Prop :=
  (∀ l ∈ ls, 1 ≤ l.length ∧ l.length ≤ 63) ∧ Name.labelsWireLength ls ≤ 255

/-- The length of the options has to fit into 16 bits, as it does for every OPT
record that is made for a request or read. -/
def ValidOpt (o : Opt) : Prop := o.options.length ≤ 0xFFFF

def Valid : Content → Prop
  | u8 _ | u16 _ | u32 _ | slice _ | header _ | counts _ => True
  | labels ls => ValidLabels ls
  | hostName text => ValidLabels (hostLabels text)
  | name n => ValidLabels n.labels
  | question q => ValidLabels q.name.labels
  | opt o => ValidOpt o
  | request r => ValidLabels r.question.name.labels ∧ ValidOpt r.opt

def isSingle : Content → Bool
  | u8 _ | u16 _ | u32 _ | slice _ | labels _ | hostName _ | name _ => true
  | question _ | header _ | counts _ | opt _ | request _ => false

/-! ## Fields -/

def headerFields (h : Header) : List Field :=
  [.plain (Wire.octets16 h.id), .plain (Wire.octets16 h.bits)]

def countsFields (c : SectionCounts) : List Field :=
  [.plain (Wire.octets16 c.question), .plain (Wire.octets16 c.answer),
   .plain (Wire.octets16 c.authority), .plain (Wire.octets16 c.additional)]

def questionFields (q : Question) : List Field :=
  [.ofLabels q.name.labels, .plain (Wire.octets16 q.type.code),
   .plain (Wire.octets16 q.recordClass.code)]

/-- Options that are too long are found out before the first field is written. -/
def optFields (o : Opt) : List Field :=
  [⟨[0], if 0xFFFF < o.options.length then some .shortBuffer else none⟩,
   .plain (Wire.octets16 RecordType.opt.code), .plain (Wire.octets16 o.payloadSize),
   .plain (Wire.octets32 o.ttlField), .plain (Wire.octets16 o.options.length.toUInt16),
   .plain o.options]

def fields : Content → List Field
  | u8 v => [.plain [v]]
  | u16 v => [.plain (Wire.octets16 v)]
  | u32 v => [.plain (Wire.octets32 v)]
  | slice os => [.plain os]
  | labels ls => [.ofLabels ls]
  | hostName text => [.ofLabels (hostLabels text)]
  | name n => [.ofLabels n.labels]
  | question q => questionFields q
  | header h => headerFields h
  | counts c => countsFields c
  | opt o => optFields o
  | request r =>
    headerFields r.header ++ countsFields Request.counts ++ questionFields r.question
      ++ optFields r.opt

theorem write_header_eq (h : Header) : h.write = Writer.fields (headerFields h) := by
  simp [Header.write, headerFields, Writer.fields, Field.write, Field.plain, Writer.u16]

theorem write_counts_eq (c : SectionCounts) : c.write = Writer.fields (countsFields c) := by
  simp [SectionCounts.write, countsFields, Writer.fields, Field.write, Field.plain, Writer.u16]

theorem write_question_eq (q : Question) : q.write = Writer.fields (questionFields q) := by
  have hname : q.name.write = (Field.ofLabels q.name.labels).write :=
    (labels_eq_fields q.name.labels).trans (fields_singleton _)
  simp [Question.write, questionFields, Writer.fields, hname, Field.write, Field.plain,
    RecordType.write, RecordClass.write, Writer.u16]

theorem write_opt_eq (o : Opt) : o.write = Writer.fields (optFields o) := by
  unfold Opt.write optFields
  by_cases hlong : 0xFFFF < o.options.length
  · rw [if_pos hlong, if_pos hlong]
    rfl
  · rw [if_neg hlong, if_neg hlong]
    simp [Writer.fields, Field.write, Field.plain, RecordType.write, RecordClass.write, Writer.u8,
      Writer.u16, Writer.u32]

theorem write_eq_fields (content : Content) : content.write = Writer.fields content.fields := by
  cases content with
  | u8 | u16 | u32 | slice => exact octets_eq_fields _
  | labels | hostName | name => exact labels_eq_fields _
  | question q => exact write_question_eq q
  | header h => exact write_header_eq h
  | counts c => exact write_counts_eq c
  | opt o => exact write_opt_eq o
  | request r =>
      simp only [write, Request.write, fields, fields_append, write_header_eq, write_counts_eq,
        write_question_eq, write_opt_eq, bind_assoc]

theorem fieldOctets_question (q : Question) : fieldOctets (questionFields q) = q.octets := by
  simp [questionFields, fieldOctets, Field.plain, Field.ofLabels, Question.octets,
    Question.fixedOctets]

theorem fieldOctets_opt (o : Opt) : fieldOctets (optFields o) = o.octets := by
  simp [optFields, fieldOctets, Field.plain, Opt.octets, Opt.header, RecordHeader.fixedOctets]

theorem fieldOctets_fields (content : Content) : fieldOctets content.fields = content.octets := by
  cases content with
  | u8 | u16 | u32 | slice | labels | hostName | name => exact List.append_nil _
  | header | counts => rfl
  | question q => exact fieldOctets_question q
  | opt o => exact fieldOctets_opt o
  | request r =>
      have hheader : fieldOctets (headerFields r.header) = r.header.octets := rfl
      have hcounts : fieldOctets (countsFields Request.counts) = Request.counts.octets := rfl
      simp only [fields, fieldOctets_append, hheader, hcounts, fieldOctets_question,
        fieldOctets_opt, octets, Request.octets, List.append_assoc]

theorem sound_singleton (f : Field) : Sound [f] ↔ f.fault? = none := List.forall_mem_singleton

theorem sound_plain (os : List UInt8) : Sound [.plain os] := (sound_singleton _).2 rfl

theorem sound_labels_iff (ls : List Label) : Sound [.ofLabels ls] ↔ ValidLabels ls :=
  (sound_singleton _).trans Name.labelsError?_eq_none_iff

theorem sound_question_iff (q : Question) :
    Sound (questionFields q) ↔ ValidLabels q.name.labels := by
  rw [← sound_labels_iff]
  simp [questionFields, Sound, Field.plain]

theorem sound_opt_iff (o : Opt) : Sound (optFields o) ↔ ValidOpt o := by
  simp [optFields, Sound, Field.plain, ValidOpt]

theorem sound_fields_iff (content : Content) : Sound content.fields ↔ content.Valid := by
  have hheader (h : Header) : Sound (headerFields h) := by simp [headerFields, Sound, Field.plain]
  have hcounts (c : SectionCounts) : Sound (countsFields c) := by
    simp [countsFields, Sound, Field.plain]
  cases content with
  | u8 | u16 | u32 | slice => exact iff_of_true (sound_plain _) trivial
  | labels | hostName | name => exact sound_labels_iff _
  | question q => exact sound_question_iff q
  | header h => exact iff_of_true (hheader h) trivial
  | counts c => exact iff_of_true (hcounts c) trivial
  | opt o => exact sound_opt_iff o
  | request r =>
      simp only [fields, sound_append, hheader, hcounts, sound_question_iff, sound_opt_iff,
        true_and, Valid]

theorem exists_field_of_isSingle {content : Content} (h : content.isSingle = true) :
    ∃ f, content.fields = [f] := by
  cases content with
  | u8 | u16 | u32 | slice | labels | hostName | name => exact ⟨_, rfl⟩
  | question | header | counts | opt | request => cases h

/-! ## What becomes of it -/

variable {content : Content} {c : Composer} {e : ComposeError}

theorem runOn_eq_fields (content : Content) (c : Composer) :
    content.write.runOn c = (Writer.fields content.fields).runOn c :=
  congrArg (Writer.runOn · c) content.write_eq_fields

theorem runOn_eq_ok_iff (hroom : c.octets.size ≤ c.capacity) :
    (content.write.runOn c).1 = .ok () ↔
      content.Valid ∧ c.octets.size + content.octets.length ≤ c.capacity := by
  rw [runOn_eq_fields, runOn_fields_eq_ok_iff hroom, sound_fields_iff, fieldOctets_fields]

theorem runOn_of_ok (hroom : c.octets.size ≤ c.capacity)
    (h : (content.write.runOn c).1 = .ok ()) :
    (content.write.runOn c).2 = ⟨c.capacity, c.octets ++ content.octets⟩ := by
  rw [runOn_eq_fields] at h ⊢
  rcases completed_or_brokenOff content.fields c hroom with hwhole | ⟨e, done, refused, rest, hpart⟩
  · rw [hwhole.written, fieldOctets_fields]
  · rw [hpart.written] at h
    cases h

theorem brokenOff_of_error (hroom : c.octets.size ≤ c.capacity)
    (h : (content.write.runOn c).1 = .error e) :
    ∃ done refused rest, BrokenOff content.fields c e done refused rest := by
  rw [runOn_eq_fields] at h
  rcases completed_or_brokenOff content.fields c hroom with
    hwhole | ⟨e', done, refused, rest, hpart⟩
  · rw [hwhole.written] at h
    cases h
  · rw [hpart.written] at h
    cases h
    exact ⟨done, refused, rest, hpart⟩

theorem runOn_of_isSingle (hroom : c.octets.size ≤ c.capacity) (hsingle : content.isSingle = true)
    (h : (content.write.runOn c).1 = .error e) : (content.write.runOn c).2 = c := by
  obtain ⟨done, refused, rest, hpart⟩ := brokenOff_of_error hroom h
  obtain ⟨f, hf⟩ := exists_field_of_isSingle hsingle
  have hdone : done = [] := by
    have hlength := congrArg List.length (hf.symm.trans hpart.split)
    simp only [List.length_append, List.length_cons, List.length_nil] at hlength
    exact List.length_eq_zero_iff.1 (by omega)
  rw [runOn_eq_fields, hpart.written, hdone]
  simp [fieldOctets]

end Content

/-! ## Whatever is done with a composer -/

inductive ComposerAct where
  | write (content : Content)
  | patch (index : Nat) (f : UInt8 → UInt8)

namespace Composer

def after (c : Composer) : ComposerAct → Composer
  | .write content => (content.write.runOn c).2
  | .patch index f => c.modifyAt index f

def run (c : Composer) (acts : List ComposerAct) : Composer := acts.foldl after c

theorem after_within {c : Composer} (act : ComposerAct) (hroom : c.octets.size ≤ c.capacity) :
    (c.after act).capacity = c.capacity ∧ (c.after act).octets.size ≤ c.capacity := by
  cases act with
  | write content =>
      have hafter : c.after (.write content) = ((Writer.fields content.fields).runOn c).2 :=
        congrArg Prod.snd (content.runOn_eq_fields c)
      rw [hafter]
      rcases completed_or_brokenOff content.fields c hroom with h | ⟨e, done, refused, rest, h⟩
      · rw [h.written]
        exact ⟨rfl, (size_append _ _).trans_le h.room⟩
      · rw [h.written]
        exact ⟨rfl, (size_append _ _).trans_le h.room⟩
  | patch index f => simpa [after, modifyAt] using hroom

theorem run_within {c : Composer} (acts : List ComposerAct) (hroom : c.octets.size ≤ c.capacity) :
    (c.run acts).capacity = c.capacity ∧ (c.run acts).octets.size ≤ c.capacity := by
  induction acts generalizing c with
  | nil => exact ⟨rfl, hroom⟩
  | cons act acts ih =>
      obtain ⟨hcapacity, hsize⟩ := after_within act hroom
      obtain ⟨hcapacity', hsize'⟩ := ih (c := c.after act) (hcapacity.symm ▸ hsize)
      exact ⟨hcapacity'.trans hcapacity, hcapacity ▸ hsize'⟩

/-- Whatever has been done with a composer, it holds no more octets than its
capacity. Anything is written to it exactly if it is valid and all of its wire form
fits into what is left, and is then put behind the rest in this form, which is always
the same. What is refused leaves the fields before the one that is at fault or does
not fit, and a single field leaves nothing. A patch changes its octet. -/
theorem holds_capacity (capacity : Nat) (acts : List ComposerAct) :
    let c := (empty capacity).run acts
    c.capacity = capacity ∧ c.octets.size ≤ capacity ∧
    (∀ content : Content,
      let written := content.write.runOn c
      (written.1 = .ok () ↔
        content.Valid ∧ c.octets.size + content.octets.length ≤ capacity) ∧
      (written.1 = .ok () → written.2 = ⟨capacity, c.octets ++ content.octets⟩) ∧
      ∀ e, written.1 = .error e →
        (content.isSingle → written.2 = c) ∧
        ∃ done refused rest, content.fields = done ++ refused :: rest ∧ Sound done ∧
          refused.RefusedAt capacity (c.octets.size + (fieldOctets done).length) e ∧
          written.2 = ⟨capacity, c.octets ++ fieldOctets done⟩) ∧
    ∀ index f,
      let patched := c.modifyAt index f
      patched.capacity = capacity ∧ patched.octets.size = c.octets.size ∧
        ∀ i, patched.octets[i]? = if i = index then c.octets[i]?.map f else c.octets[i]? := by
  intro c
  obtain ⟨hcapacity, hsize⟩ := run_within (c := empty capacity) acts (Nat.zero_le _)
  have hroom : c.octets.size ≤ c.capacity := hsize.trans_eq hcapacity.symm
  replace hcapacity : c.capacity = capacity := hcapacity
  refine ⟨hcapacity, hsize, fun content => ⟨?_, ?_, ?_⟩, fun index f => ⟨hcapacity, ?_, ?_⟩⟩
  · exact hcapacity ▸ Content.runOn_eq_ok_iff hroom
  · exact hcapacity ▸ Content.runOn_of_ok hroom
  · intro e h
    obtain ⟨done, refused, rest, hpart⟩ := Content.brokenOff_of_error hroom h
    refine ⟨fun hsingle => Content.runOn_of_isSingle hroom hsingle h,
      done, refused, rest, hpart.split, hpart.sound, hcapacity ▸ hpart.refused, ?_⟩
    rw [Content.runOn_eq_fields, hpart.written, hcapacity]
  · exact Array.size_modify
  · intro i
    by_cases hi : i = index
    · simp [modifyAt, Array.getElem?_modify, hi]
    · simp [modifyAt, Array.getElem?_modify, hi, Ne.symm hi]

end Composer

end StubResolver
