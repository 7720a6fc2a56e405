import StubResolver.Message.Request
import StubResolver.Proofs.Name.Constructed
import StubResolver.Proofs.Record.Opt

/-!
# Requests on the wire

A request is written unless the name it asks for is not valid, and what is written is
read back as the question and the OPT record of the request. The room that there is
for a request suffices for all of them.
-/

namespace StubResolver

open Name

/-! ## Writing -/

theorem Header.write_appends (h : Header) : h.write.Appends h.octets :=
  (Writer.octets_appends _).bind (Writer.octets_appends _)

theorem SectionCounts.write_appends (c : SectionCounts) : c.write.Appends c.octets := by
  have h : c.write.Appends _ :=
    (Writer.octets_appends _).bind <| (Writer.octets_appends _).bind <|
      (Writer.octets_appends _).bind <| Writer.octets_appends _
  simpa [octets] using h

def Question.octets (q : Question) : List UInt8 :=
  Writer.labelOctets q.name.labels ++ q.fixedOctets

theorem Question.write_appends {q : Question} (h : labelsError? q.name.labels = none) :
    q.write.Appends q.octets :=
  (Writer.labels_appends h).bind <| (Writer.octets_appends _).bind (Writer.octets_appends _)

theorem Question.write_failsAfter {q : Question} {e : ComposeError}
    (h : labelsError? q.name.labels = some e) : q.write.FailsAfter [] e :=
  (Writer.labels_failsAfter h).bind

theorem Question.occupies_of_standsAt {q : Question} {m : Octets} {pos : Nat}
    (h : ∀ l ∈ q.name.labels, 1 ≤ l.length ∧ l.length ≤ maxLabelLength)
    (hstands : StandsAt m pos q.octets) : q.Occupies m pos (pos + q.octets.length) := by
  obtain ⟨hname, hfixed⟩ := standsAt_append_iff.1 hstands
  refine ⟨_, occupies_of_standsAt_labelOctets h hname, hfixed, ?_⟩
  rw [octets, List.length_append, Nat.add_assoc]
  rfl

namespace Request

def octets (r : Request) : List UInt8 :=
  r.header.octets ++ (counts.octets ++ (r.question.octets ++ r.opt.octets))

variable {r : Request}

theorem length_octets :
    r.octets.length = 12 + r.question.name.wireLength + 4 + (11 + r.opt.options.length) := by
  simp [octets, length_labelOctets, Opt.length_octets, wireLength, Header.octets,
    SectionCounts.octets, Question.octets, Question.fixedOctets, Wire.octets16]
  omega

theorem toOctets_of_error {e : ComposeError}
    (h : labelsError? r.question.name.labels = some e) : r.toOctets = .error e := by
  have hwrite : r.write.FailsAfter _ e :=
    r.header.write_appends.bind_failsAfter <| counts.write_appends.bind_failsAfter <|
      (Question.write_failsAfter h).bind
  exact hwrite.toOctets_eq (by decide : 12 ≤ 1024)

theorem toOctets_of_valid (h : labelsError? r.question.name.labels = none)
    (hroom : r.octets.length ≤ Composer.requestCapacity) : r.toOctets = .ok r.octets.toArray := by
  have hsmall : r.opt.options.length ≤ 0xFFFF := by
    rw [length_octets, Composer.requestCapacity] at hroom
    omega
  have hwrite : r.write.Appends r.octets :=
    r.header.write_appends.bind <| counts.write_appends.bind <|
      (Question.write_appends h).bind (Opt.write_appends hsmall)
  exact hwrite.toOctets_eq hroom

theorem toOctets_eq_if (h : ∀ l ∈ r.question.name.labels, l ≠ []) (hopt : r.opt.options = []) :
    r.toOctets =
      if ∃ l ∈ r.question.name.labels, maxLabelLength < l.length then .error .longLabel
      else if maxWireLength < r.question.name.wireLength then .error .longName
      else .ok r.octets.toArray := by
  have hfault := labelsError?_of_ne_nil h
  split
  · rename_i hlong
    exact toOctets_of_error (hfault.trans (if_pos hlong))
  · rename_i hshort
    rw [if_neg hshort] at hfault
    split
    · rename_i hlong
      exact toOctets_of_error (hfault.trans (if_pos hlong))
    · rename_i hfits
      refine toOctets_of_valid (hfault.trans (if_neg hfits)) ?_
      rw [length_octets, hopt, Composer.requestCapacity, List.length_nil]
      unfold maxWireLength at hfits
      omega

theorem toOctets_eq_longLabel_iff (h : ∀ l ∈ r.question.name.labels, l ≠ [])
    (hopt : r.opt.options = []) :
    r.toOctets = .error .longLabel ↔ ∃ l ∈ r.question.name.labels, maxLabelLength < l.length := by
  rw [toOctets_eq_if h hopt]
  split
  · grind
  · split <;> grind

theorem toOctets_eq_longName_iff (h : ∀ l ∈ r.question.name.labels, l ≠ [])
    (hopt : r.opt.options = []) :
    r.toOctets = .error .longName ↔
      (∀ l ∈ r.question.name.labels, l.length ≤ maxLabelLength) ∧
        maxWireLength < r.question.name.wireLength := by
  rw [toOctets_eq_if h hopt]
  split
  · grind
  · split <;> grind

theorem toOctets_ne_error {e : ComposeError} (h : ∀ l ∈ r.question.name.labels, l ≠ [])
    (hopt : r.opt.options = []) (hlong : e ≠ .longLabel) (hlongName : e ≠ .longName) :
    r.toOctets ≠ .error e := by
  rw [toOctets_eq_if h hopt]
  split
  · grind
  · split <;> grind

theorem toOctets_eq_ok (h : ∀ l ∈ r.question.name.labels, l ≠ []) (hopt : r.opt.options = [])
    (hshort : ∀ l ∈ r.question.name.labels, l.length ≤ maxLabelLength)
    (hfits : r.question.name.wireLength ≤ maxWireLength) :
    r.toOctets = .ok r.octets.toArray := by
  rw [toOctets_eq_if h hopt]
  grind

theorem eq_octets_of_toOctets {octets : Octets} (hopt : r.opt.options = [])
    (h : r.toOctets = .ok octets) : octets = r.octets.toArray := by
  cases hfault : labelsError? r.question.name.labels with
  | some e => cases h.symm.trans (toOctets_of_error hfault)
  | none =>
      have hlabels := (labelsError?_eq_none_iff.1 hfault).1
      rw [toOctets_eq_if (fun l hl => List.ne_nil_of_length_pos (hlabels l hl).1) hopt] at h
      split at h
      · cases h
      · split at h
        · cases h
        · exact (Except.ok.inj h).symm

/-! ## Reading -/

def received (r : Request) : Message where
  header := r.header
  counts := counts
  question := [r.question]
  answer := []
  authority := []
  additional := [r.opt.record]
  size := r.octets.length

theorem received_framed
    (h : ∀ l ∈ r.question.name.labels, 1 ≤ l.length ∧ l.length ≤ maxLabelLength)
    (hsmall : r.opt.options.length ≤ 0xFFFF) :
    r.received.Framed (Registry.standard.Decodes r.octets.toArray) r.octets.toArray := by
  have hstands : StandsAt r.octets.toArray 0 r.octets := List.prefix_rfl
  obtain ⟨hheader, hstands⟩ := standsAt_append_iff.1 hstands
  obtain ⟨hcounts, hstands⟩ := standsAt_append_iff.1 hstands
  obtain ⟨hquestion, hopt⟩ := standsAt_append_iff.1 hstands
  have hend := hopt.length_le (List.cons_ne_nil _ _)
  refine ⟨standsAt_append_iff.2 ⟨hheader, hcounts⟩, rfl, rfl, rfl, rfl, ⟨_, _, _, _,
    .cons (Question.occupies_of_standsAt h hquestion) (.nil _), .nil _, .nil _,
    .cons (Opt.record_occupies hsmall hopt) (.nil _), hend⟩, rfl⟩

/-- Requests with an OPT record as they are made, whatever header they have been
given: one with a name that has a label too long, or is too long itself, is refused
for that. Any other fits into its buffer, and is read back as what it was made
from. -/
theorem toOctets_round_trip {question : Question} (hname : Constructed question.name)
    (header : Header) (recursionDesired dnssecOk : Bool) (payloadSize : UInt16) :
    let request : Request :=
      { (ofQuestion question recursionDesired payloadSize).setDnssecOk dnssecOk with header }
    (request.toOctets = .error .longLabel ↔
        ∃ l ∈ question.name.labels, maxLabelLength < l.length) ∧
      (request.toOctets = .error .longName ↔
        (∀ l ∈ question.name.labels, l.length ≤ maxLabelLength) ∧
          maxWireLength < question.name.wireLength) ∧
      request.toOctets ≠ .error .shortBuffer ∧ request.toOctets ≠ .error .emptyLabel ∧
      ((∀ l ∈ question.name.labels, l.length ≤ maxLabelLength) →
        question.name.wireLength ≤ maxWireLength →
        ∃ octets message, request.toOctets = .ok octets ∧
          Message.ofOctets .standard octets = .ok message ∧
          message.header = header ∧ message.counts = ⟨1, 0, 0, 1⟩ ∧
          message.question = [question] ∧ message.answer = [] ∧ message.authority = [] ∧
          (∃ r, message.additional = [r] ∧ r.header.owner = .root ∧ r.data = .opt request.opt) ∧
          message.size = 12 + question.name.wireLength + 4 + 11) := by
  intro request
  have hne : ∀ l ∈ request.question.name.labels, l ≠ [] := hname.ne_nil
  refine ⟨toOctets_eq_longLabel_iff hne rfl, toOctets_eq_longName_iff hne rfl,
    toOctets_ne_error hne rfl nofun nofun, toOctets_ne_error hne rfl nofun nofun,
    fun hshort hfits => ?_⟩
  have hlabels : ∀ l ∈ question.name.labels, 1 ≤ l.length ∧ l.length ≤ maxLabelLength :=
    fun l hl => ⟨List.length_pos_iff.2 (hne l hl), hshort l hl⟩
  have hread : Message.ofOctets .standard request.octets.toArray = .ok request.received :=
    (received_framed hlabels (Nat.zero_le _)).ofOctets_eq
  exact ⟨_, request.received, toOctets_eq_ok hne rfl hshort hfits, hread, rfl, rfl, rfl, rfl, rfl,
    ⟨_, rfl, rfl, rfl⟩, length_octets⟩

/-- Labels that look like a pointer and like dots are labels nevertheless. -/
theorem round_trip_of_pointer_like_label :
    let question : Question := ⟨⟨[[0xC0, 0x0C], [0x2E, 0x2E]]⟩, .a, .internet⟩
    let header : Header := ⟨0xC00C, 0xFFFF⟩
    let request : Request := { (ofQuestion question true 1232).setDnssecOk true with header }
    Constructed question.name ∧
      ∃ octets message, request.toOctets = .ok octets ∧
        Message.ofOctets .standard octets = .ok message ∧
        message.header = header ∧ message.counts = ⟨1, 0, 0, 1⟩ ∧
        message.question = [question] ∧ message.answer = [] ∧ message.authority = [] ∧
        (∃ r, message.additional = [r] ∧ r.header.owner = .root ∧ r.data = .opt request.opt) ∧
        message.size = 34 := by
  intro question header request
  have hname : Constructed question.name :=
    .ofLabels (show ofLabels [[0xC0, 0x0C], [0x2E, 0x2E]] = .ok question.name from rfl)
  obtain ⟨-, -, -, -, hdecoded⟩ := toOctets_round_trip hname header true true 1232
  exact ⟨hname, hdecoded (by decide) (by decide)⟩

end Request

end StubResolver
