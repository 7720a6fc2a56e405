import Mathlib.Data.List.Forall2
import StubResolver.Message.Basic

/-!
# Aging

Aging counts in signed numbers of 32 bits that stop at the ends of their range, and
none of these ends ever shows. What a record comes to is told by the seconds that
have passed, however many: its time to live is lowered by them, and to zero at most.
So aging twice is aging once, by all the seconds together.
-/

namespace StubResolver

/-! ## Signed numbers -/

theorem toInt_ofIntClamp (i : Int) :
    (Int32.ofIntClamp i).toInt = max (-0x80000000) (min i 0x7FFFFFFF) := by
  have hlow : Int32.minValue.toInt = -0x80000000 := by decide
  have hhigh : Int32.maxValue.toInt = 0x7FFFFFFF := by decide
  unfold Int32.ofIntClamp
  split
  · split
    · rw [Int32.toInt_ofIntLE]
      omega
    · omega
  · omega

theorem toInt_max_zero (v : Int32) : (max v 0).toInt = max v.toInt 0 := by
  have hzero : (0 : Int32).toInt = 0 := by decide
  have hle : v ≤ 0 ↔ v.toInt ≤ (0 : Int32).toInt := Int32.le_iff_toInt_le
  have hmax : max v 0 = if v ≤ 0 then 0 else v := rfl
  rw [hmax]
  simp only [hle]
  split <;> omega

/-! ## Records -/

def Record.after (seconds : Nat) (r : Record) : Record :=
  if r.data.isOpt then r
  else { r with header := { r.header with ttl := .ofInt (max 0 (r.ttl.toInt - seconds)) } }

/-- The record some seconds later. The time to live of
OPT data means something else and does not go down. -/
structure Record.Later (seconds : Nat) (r later : Record) : Prop where
  owner : later.header.owner = r.header.owner
  type : later.header.type = r.header.type
  recordClass : later.header.recordClass = r.header.recordClass
  dataLength : later.header.dataLength = r.header.dataLength
  data : later.data = r.data
  keeps : ∀ o, r.data = .opt o → later.ttl = r.ttl
  lowers : (∀ o, r.data ≠ .opt o) → later.ttl.toInt = max 0 (r.ttl.toInt - seconds)
  bounds : (∀ o, r.data ≠ .opt o) →
    0 ≤ later.ttl.toInt ∧ (0 ≤ r.ttl.toInt → later.ttl.toInt ≤ r.ttl.toInt)

def Record.withTtl (r : Record) (ttl : Int32) : Record :=
  { r with header := { r.header with ttl } }

theorem RecordData.isOpt_iff {data : RecordData} : data.isOpt = true ↔ ∃ o, data = .opt o := by
  cases data <;> simp [isOpt]

namespace Record

variable {r : Record}

theorem ttl_aged (r : Record) (seconds : UInt32) :
    (r.aged seconds).ttl.toInt = max 0 (r.ttl.toInt - seconds.toNat) := by
  have hlow := r.ttl.le_toInt
  have hhigh := r.ttl.toInt_lt
  simp only [ttl, aged, toInt_max_zero, toInt_ofIntClamp] at *
  omega

theorem ttl_after (hopt : r.data.isOpt = false) (seconds : Nat) :
    (r.after seconds).ttl.toInt = max 0 (r.ttl.toInt - seconds) := by
  have hlow := r.ttl.le_toInt
  have hhigh := r.ttl.toInt_lt
  simp only [after, hopt, Bool.false_eq_true, if_false, ttl] at *
  rw [Int32.toInt_ofInt_of_le] <;> omega

theorem after_of_isOpt (hopt : r.data.isOpt = true) (seconds : Nat) : r.after seconds = r :=
  if_pos hopt

theorem after_eq_withTtl (r : Record) (seconds : Nat) :
    r.after seconds = r.withTtl (r.after seconds).ttl := by
  unfold after
  split <;> rfl

theorem withTtl_after (r : Record) (seconds : Nat) (ttl : Int32) :
    (r.after seconds).withTtl ttl = r.withTtl ttl := by
  rw [after_eq_withTtl]
  rfl

theorem isOpt_after (r : Record) (seconds : Nat) :
    (r.after seconds).data.isOpt = r.data.isOpt := by
  rw [after_eq_withTtl]
  rfl

theorem after_after (r : Record) (s t : Nat) : (r.after s).after t = r.after (s + t) := by
  cases hopt : r.data.isOpt with
  | true => simp only [after_of_isOpt hopt]
  | false =>
      have hopt' : (r.after s).data.isOpt = false := by rw [isOpt_after, hopt]
      have httl : ((r.after s).after t).ttl = (r.after (s + t)).ttl := by
        rw [← Int32.toInt_inj, ttl_after hopt', ttl_after hopt, ttl_after hopt]
        omega
      rw [after_eq_withTtl (r.after s), httl, withTtl_after, ← after_eq_withTtl]

theorem later_after (r : Record) (seconds : Nat) : r.Later seconds (r.after seconds) := by
  have hfields := r.after_eq_withTtl seconds
  have hlower : (∀ o, r.data ≠ .opt o) →
      (r.after seconds).ttl.toInt = max 0 (r.ttl.toInt - seconds) := fun hdata =>
    ttl_after (Bool.eq_false_iff.2 fun hopt => (RecordData.isOpt_iff.1 hopt).elim hdata) seconds
  exact
    { owner := by rw [hfields, withTtl]
      type := by rw [hfields, withTtl]
      recordClass := by rw [hfields, withTtl]
      dataLength := by rw [hfields, withTtl]
      data := by rw [hfields, withTtl]
      keeps := fun o hdata => by rw [after_of_isOpt (RecordData.isOpt_iff.2 ⟨o, hdata⟩)]
      lowers := hlower
      bounds := fun hdata => by
        have httl := hlower hdata
        omega }

end Record

/-! ## Messages -/

namespace Message

def after (m : Message) (seconds : Nat) : Message :=
  { m with
    answer := m.answer.map (Record.after seconds)
    authority := m.authority.map (Record.after seconds)
    additional := m.additional.map (Record.after seconds) }

structure Later (seconds : Nat) (m later : Message) : Prop where
  header : later.header = m.header
  counts : later.counts = m.counts
  question : later.question = m.question
  answer : List.Forall₂ (Record.Later seconds) m.answer later.answer
  authority : List.Forall₂ (Record.Later seconds) m.authority later.authority
  additional : List.Forall₂ (Record.Later seconds) m.additional later.additional
  size : later.size = m.size

theorem ageRecord_eq_after {seconds : UInt32} {passed : Nat}
    (h : seconds.toNat = min passed 0xFFFFFFFF) (r : Record) :
    ageRecord seconds r = r.after passed := by
  cases hopt : r.data.isOpt with
  | true => rw [ageRecord, if_pos hopt, Record.after_of_isOpt hopt]
  | false =>
      have hhigh := r.ttl.toInt_lt
      have httl : (r.aged seconds).ttl = (r.after passed).ttl := by
        rw [← Int32.toInt_inj, Record.ttl_aged, Record.ttl_after hopt]
        omega
      rw [ageRecord, hopt, if_neg Bool.false_ne_true, Record.after_eq_withTtl, ← httl]
      rfl

theorem aged_eq_after {seconds : UInt32} {passed : Nat}
    (h : seconds.toNat = min passed 0xFFFFFFFF) (m : Message) :
    m.aged seconds = m.after passed := by
  have hrecord : ageRecord seconds = Record.after passed := funext (ageRecord_eq_after h)
  unfold aged after
  rw [hrecord]

theorem aged_eq_after_toNat (m : Message) (seconds : UInt32) :
    m.aged seconds = m.after seconds.toNat := by
  have hlt := seconds.toNat_lt
  exact m.aged_eq_after (by omega)

theorem records_after (m : Message) (seconds : Nat) :
    (m.after seconds).records = m.records.map (Record.after seconds) := by
  simp [records, allRecords, after, List.filter_map, Function.comp_def, Record.isOpt_after]

theorem ttls_after (m : Message) (seconds : Nat) :
    (m.after seconds).records.map (fun r => r.ttl.toInt) =
      m.records.map fun r => max 0 (r.ttl.toInt - (seconds : Int)) := by
  rw [records_after, List.map_map]
  refine List.map_congr_left fun r hr => ?_
  have hopt : r.data.isOpt = false := by simpa using (List.mem_filter.1 hr).2
  exact Record.ttl_after hopt seconds

theorem after_after (m : Message) (s t : Nat) : (m.after s).after t = m.after (s + t) := by
  simp [after, Record.after_after]

theorem later_after (m : Message) (seconds : Nat) : m.Later seconds (m.after seconds) := by
  have hrecords : ∀ records : List Record,
      List.Forall₂ (Record.Later seconds) records (records.map (Record.after seconds)) := by
    intro records
    rw [List.forall₂_map_right_iff, List.forall₂_same]
    exact fun r _ => r.later_after seconds
  exact ⟨rfl, rfl, rfl, hrecords _, hrecords _, hrecords _, rfl⟩

theorem minTtl?_after (m : Message) (seconds : Nat) :
    (m.after seconds).minTtl? = m.minTtl?.map fun ttl => max 0 (ttl - (seconds : Int)) := by
  unfold minTtl?
  rw [ttls_after]
  cases hmin : (m.records.map fun r => r.ttl.toInt).min? with
  | none =>
      rw [List.min?_eq_none_iff, List.map_eq_nil_iff] at hmin
      simp [hmin]
  | some ttl =>
      rw [List.min?_eq_some_iff] at hmin
      rw [Option.map_some, List.min?_eq_some_iff]
      simp only [List.mem_map, forall_exists_index, and_imp, forall_apply_eq_imp_iff₂] at hmin ⊢
      obtain ⟨⟨r, hr, rfl⟩, hleast⟩ := hmin
      refine ⟨⟨r, hr, rfl⟩, fun r' hr' => ?_⟩
      have hle := hleast r' hr'
      omega

/-- Aging by seconds that 32 bits hold together is aging by their sum, with nothing
left of the clamping in between. The smallest time to live that counts is lowered
like all others, and there is one afterwards if there was one before. -/
theorem aged_adds_up (m : Message) {a b : UInt32} (h : a.toNat + b.toNat < UInt32.size) :
    (m.aged a).aged b = m.aged (a + b) ∧ m.Later a.toNat (m.aged a) ∧
      ((m.aged a).minTtl? = none ↔ m.minTtl? = none) ∧
      ∀ ttl, m.minTtl? = some ttl → (m.aged a).minTtl? = some (max 0 (ttl - (a.toNat : Int))) := by
  have hsum : (a + b).toNat = a.toNat + b.toNat := (UInt32.toNat_add a b).trans (Nat.mod_eq_of_lt h)
  simp only [aged_eq_after_toNat, minTtl?_after, after_after, hsum]
  refine ⟨trivial, m.later_after _, ?_, ?_⟩
  · simp
  · rintro ttl httl
    simp [httl]

/-- The seconds go beyond what a signed number holds,
and the OPT record stands among the answers. -/
theorem aged_beyond_signed_seconds :
    let address : Int32 → Record := fun ttl =>
      ⟨⟨.root, .a, .internet, ttl, 4⟩, .a ⟨#v[192, 0, 2, 1]⟩⟩
    let opt : Record := ⟨⟨.root, .opt, ⟨1232⟩, -0x7FFF8000, 0⟩, .opt ⟨1232, 0x80, 0, true, []⟩⟩
    let m : Message :=
      ⟨⟨0, 0x8180⟩, ⟨0, 2, 1, 0⟩, [], [address 300, opt], [address 0x7FFFFFFF], [], 54⟩
    let b : UInt32 := 0xFFFFFED4
    (299 : UInt32).toNat + b.toNat < UInt32.size ∧ (m.aged 299).aged b = m.aged 0xFFFFFFFF ∧
      m.Later 299 (m.aged 299) ∧ m.minTtl? = some 300 ∧ (m.aged 299).minTtl? = some 1 := by
  intro address opt m b
  have hroom : (299 : UInt32).toNat + b.toNat < UInt32.size := by decide
  have hsum : 299 + b = 0xFFFFFFFF := by decide
  obtain ⟨htwice, hlater, -, hleast⟩ := m.aged_adds_up hroom
  have hmin : m.minTtl? = some 300 := by decide
  rw [hsum] at htwice
  exact ⟨hroom, htwice, hlater, hmin, hleast 300 hmin⟩

end Message

end StubResolver
