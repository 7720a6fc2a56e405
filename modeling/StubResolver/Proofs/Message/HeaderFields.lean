import StubResolver.Proofs.Message.RoundTrip
import StubResolver.Proofs.Name.Compression

/-!
# The fields of a message header

A header is a number of 32 bits, its ID above the flags word, and each of its eleven
fields is a range of these bits. The ranges do not overlap and leave no bit out.
Setting a field changes the bits in its range and no others, so that fields can be
set in any order, and together they are the whole header.
-/

namespace StubResolver

def Flag.index : Flag → Nat
  | response => 15
  | authoritative => 10
  | truncated => 9
  | recursionDesired => 8
  | recursionAvailable => 7
  | reserved => 6
  | authenticData => 5
  | checkingDisabled => 4

theorem Flag.toNat_mask (f : Flag) : f.mask.toNat = 2 ^ f.index := by
  cases f <;> rfl

inductive HeaderField where
  | id
  | opcode
  | rcode
  | flag (f : Flag)
  deriving DecidableEq

namespace HeaderField

abbrev Value : HeaderField → Type
  | id => UInt16
  | opcode => Opcode
  | rcode => HeaderRcode
  | flag _ => Bool

def kept : (f : HeaderField) → f.Value → f.Value
  | id, v => v
  | opcode, c => ⟨c.code % 16⟩
  | rcode, c => ⟨c.code % 16⟩
  | flag _, on => on

/-! ## Ranges of bits -/

def lowest : HeaderField → Nat
  | id => 16
  | opcode => 11
  | rcode => 0
  | flag f => f.index

def width : HeaderField → Nat
  | id => 16
  | opcode | rcode => 4
  | flag _ => 1

def Covers (f : HeaderField) (i : Nat) : Prop := f.lowest ≤ i ∧ i < f.lowest + f.width

instance (f : HeaderField) (i : Nat) : Decidable (f.Covers i) :=
  inferInstanceAs (Decidable (_ ∧ _))

def fieldAt (i : Nat) : HeaderField :=
  if 16 ≤ i then id
  else if i = 15 then flag .response
  else if 11 ≤ i then opcode
  else if i = 10 then flag .authoritative
  else if i = 9 then flag .truncated
  else if i = 8 then flag .recursionDesired
  else if i = 7 then flag .recursionAvailable
  else if i = 6 then flag .reserved
  else if i = 5 then flag .authenticData
  else if i = 4 then flag .checkingDisabled
  else rcode

theorem covers_iff_fieldAt_eq (f : HeaderField) : ∀ i < 32, f.Covers i ↔ fieldAt i = f := by
  cases f with
  | id | opcode | rcode => decide
  | flag f => cases f <;> decide

theorem lowest_add_width_le (f : HeaderField) : f.lowest + f.width ≤ 32 := by
  cases f with
  | id | opcode | rcode => decide
  | flag f => cases f <;> decide

theorem Covers.unique {f g : HeaderField} {i : Nat} (hf : f.Covers i) (hg : g.Covers i) :
    f = g := by
  have hi : i < 32 := hf.2.trans_le f.lowest_add_width_le
  exact ((f.covers_iff_fieldAt_eq i hi).1 hf).symm.trans ((g.covers_iff_fieldAt_eq i hi).1 hg)

theorem covers_add_lowest {f : HeaderField} {i : Nat} (hi : i < f.width) :
    f.Covers (i + f.lowest) :=
  ⟨by omega, by omega⟩

theorem Covers.lt {f : HeaderField} {i : Nat} (hcovers : f.Covers i) (hne : f ≠ id) : i < 16 := by
  have hlt := hcovers.2
  cases f with
  | id => exact (hne rfl).elim
  | opcode | rcode => exact hlt.trans_le (by decide)
  | flag f => exact hlt.trans_le (by cases f <;> decide)

/-! ## Values as numbers -/

def number : (f : HeaderField) → f.Value → Nat
  | id, v => v.toNat
  | opcode, c => c.code.toNat
  | rcode, c => c.code.toNat
  | flag _, on => on.toNat

theorem number_inj {f : HeaderField} {v w : f.Value} (h : f.number v = f.number w) : v = w := by
  cases f with
  | id => exact UInt16.toNat_inj.1 h
  | opcode => exact congrArg Opcode.mk (UInt8.toNat_inj.1 h)
  | rcode => exact congrArg HeaderRcode.mk (UInt8.toNat_inj.1 h)
  | flag f => exact Function.LeftInverse.injective Bool.ofNat_toNat h

theorem number_kept (f : HeaderField) (v : f.Value) :
    f.number (f.kept v) = f.number v % 2 ^ f.width := by
  cases f with
  | id => exact (Nat.mod_eq_of_lt v.toNat_lt).symm
  | opcode | rcode => exact UInt8.toNat_mod _ _
  | flag f => exact (Nat.mod_eq_of_lt (Bool.toNat_lt v)).symm

end HeaderField

namespace Header

variable (h : Header)

def get : (f : HeaderField) → f.Value
  | .id => h.id
  | .opcode => h.opcode
  | .rcode => h.rcode
  | .flag f => h.flag f

def set : (f : HeaderField) → f.Value → Header
  | .id, v => h.setId v
  | .opcode, c => h.setOpcode c
  | .rcode, c => h.setRcode c
  | .flag f, on => h.setFlag f on

def number : Nat := 2 ^ 16 * h.id.toNat + h.bits.toNat

theorem testBit_number (i : Nat) :
    h.number.testBit i =
      if i < 16 then h.bits.toNat.testBit i else h.id.toNat.testBit (i - 16) :=
  Nat.testBit_two_pow_mul_add _ h.bits.toNat_lt i

theorem number_lt : h.number < 2 ^ 32 := by
  have hid := h.id.toNat_lt
  have hbits := h.bits.toNat_lt
  unfold number
  omega

theorem number_inj {h h' : Header} (heq : h.number = h'.number) : h = h' := by
  have hbits := h.bits.toNat_lt
  have hbits' := h'.bits.toNat_lt
  unfold number at heq
  have hid : h.id = h'.id := UInt16.toNat_inj.1 (by omega)
  have hword : h.bits = h'.bits := UInt16.toNat_inj.1 (by omega)
  cases h
  cases h'
  congr

theorem toNat_opcode : h.opcode.code.toNat = h.bits.toNat / 2 ^ 11 % 2 ^ 4 := by
  have hmask : (0x0F : Nat) = 2 ^ 4 - 1 := rfl
  simp only [opcode, UInt16.toNat_toUInt8, UInt16.toNat_and, UInt16.toNat_shiftRight,
    UInt16.reduceToNat, Nat.reduceMod, hmask, Nat.and_two_pow_sub_one_eq_mod,
    Nat.shiftRight_eq_div_pow]
  omega

theorem toNat_rcode : h.rcode.code.toNat = h.bits.toNat % 2 ^ 4 := by
  have hmask : (0x0F : Nat) = 2 ^ 4 - 1 := rfl
  simp only [rcode, HeaderRcode.masked, UInt8.toNat_and, UInt16.toNat_toUInt8, UInt8.reduceToNat,
    hmask, Nat.and_two_pow_sub_one_eq_mod]
  omega

theorem toNat_flag (f : Flag) : (h.flag f).toNat = h.bits.toNat / 2 ^ f.index % 2 := by
  have hmasked : (h.bits &&& f.mask).toNat =
      (h.bits.toNat.testBit f.index).toNat * 2 ^ f.index := by
    rw [UInt16.toNat_and, f.toNat_mask, Nat.and_two_pow]
  have hflag : h.flag f = h.bits.toNat.testBit f.index := by
    rw [Bool.eq_iff_iff, flag, bne_iff_ne, ne_eq, ← UInt16.toNat_inj, hmasked]
    cases h.bits.toNat.testBit f.index <;> simp
  rw [hflag, Nat.toNat_testBit]

theorem number_get (f : HeaderField) :
    f.number (h.get f) = h.number / 2 ^ f.lowest % 2 ^ f.width := by
  have hid := h.id.toNat_lt
  have hbits := h.bits.toNat_lt
  cases f with
  | id =>
      simp only [get, HeaderField.number, HeaderField.lowest, HeaderField.width, number]
      omega
  | opcode =>
      simp only [get, HeaderField.number, HeaderField.lowest, HeaderField.width, number,
        toNat_opcode]
      omega
  | rcode =>
      simp only [get, HeaderField.number, HeaderField.lowest, HeaderField.width, number,
        toNat_rcode]
      omega
  | flag f =>
      simp only [get, HeaderField.number, HeaderField.lowest, HeaderField.width, number,
        toNat_flag]
      cases f <;> simp only [Flag.index] <;> omega

/-! ## Bits that a setting changes -/

theorem testBit_setOpcode (c : Opcode) : ∀ i < 16, (h.setOpcode c).bits.toNat.testBit i =
    if HeaderField.opcode.Covers i then c.code.toNat.testBit (i - 11)
    else h.bits.toNat.testBit i := by
  have hmask : ∀ i < 16, (~~~opcodeMask).toNat.testBit i =
      !decide (HeaderField.opcode.Covers i) := by
    decide
  have hcode : ∀ i < 16, (decide (11 ≤ i) && (0x0F : Nat).testBit (i - 11)) =
      decide (HeaderField.opcode.Covers i) := by
    decide
  intro i hi
  simp only [setOpcode, UInt16.toNat_or, UInt16.toNat_and, Nat.testBit_or, Nat.testBit_and,
    hmask i hi, UInt16.toNat_shiftLeft, UInt8.toNat_toUInt16, UInt8.toNat_and, UInt16.reduceToNat,
    UInt8.reduceToNat, Nat.reduceMod, Nat.testBit_mod_two_pow, Nat.testBit_shiftLeft, ge_iff_le, hi]
  rw [decide_true, Bool.true_and, Bool.and_left_comm, hcode i hi]
  by_cases hcovers : HeaderField.opcode.Covers i <;> simp [hcovers]

theorem testBit_setRcode (c : HeaderRcode) : ∀ i < 16, (h.setRcode c).bits.toNat.testBit i =
    if HeaderField.rcode.Covers i then c.code.toNat.testBit i else h.bits.toNat.testBit i := by
  have hmask : ∀ i < 16, (~~~rcodeMask).toNat.testBit i = !decide (HeaderField.rcode.Covers i) := by
    decide
  have hcode : ∀ i < 16, (0x0F : Nat).testBit i = decide (HeaderField.rcode.Covers i) := by decide
  intro i hi
  simp only [setRcode, UInt16.toNat_or, UInt16.toNat_and, Nat.testBit_or, Nat.testBit_and,
    hmask i hi, UInt8.toNat_toUInt16, UInt8.toNat_and, UInt8.reduceToNat, hcode i hi]
  by_cases hcovers : HeaderField.rcode.Covers i <;> simp [hcovers]

theorem testBit_setFlag (f : Flag) (on : Bool) : ∀ i < 16, (h.setFlag f on).bits.toNat.testBit i =
    if (HeaderField.flag f).Covers i then on.toNat.testBit (i - f.index)
    else h.bits.toNat.testBit i := by
  have hmask : ∀ i < 16, f.mask.toNat.testBit i = decide ((HeaderField.flag f).Covers i) := by
    cases f <;> decide
  have hmask' : ∀ i < 16, (~~~f.mask).toNat.testBit i =
      !decide ((HeaderField.flag f).Covers i) := by
    cases f <;> decide
  intro i hi
  have hindex : (HeaderField.flag f).Covers i → i - f.index = 0 := by
    rintro ⟨hle, hlt⟩
    simp only [HeaderField.lowest, HeaderField.width] at hle hlt
    omega
  cases on with
  | true =>
      simp only [setFlag, if_true, UInt16.toNat_or, Nat.testBit_or, hmask i hi]
      by_cases hcovers : (HeaderField.flag f).Covers i
      · simp [hcovers, hindex hcovers]
      · simp [hcovers]
  | false =>
      simp only [setFlag, Bool.false_eq_true, if_false, UInt16.toNat_and, Nat.testBit_and,
        hmask' i hi]
      by_cases hcovers : (HeaderField.flag f).Covers i
      · simp [hcovers, hindex hcovers]
      · simp [hcovers]

theorem testBit_set (f : HeaderField) (v : f.Value) {i : Nat} (hi : i < 32) :
    (h.set f v).number.testBit i =
      if f.Covers i then (f.number v).testBit (i - f.lowest) else h.number.testBit i := by
  rw [testBit_number, testBit_number]
  -- The flags word is below bit 16, the ID above.
  by_cases hlow : i < 16
  · rw [if_pos hlow, if_pos hlow]
    cases f with
    | id =>
        rw [if_neg fun hcovers => Nat.not_le.2 hlow hcovers.1]
        rfl
    | opcode => exact h.testBit_setOpcode v i hlow
    | rcode => exact h.testBit_setRcode v i hlow
    | flag f => exact h.testBit_setFlag f v i hlow
  · rw [if_neg hlow, if_neg hlow]
    cases f with
    | id =>
        rw [if_pos ⟨Nat.not_lt.1 hlow, hi⟩]
        rfl
    | opcode | rcode | flag =>
        rw [if_neg fun hcovers => hlow (hcovers.lt nofun)]
        rfl

theorem testBit_get {f : HeaderField} (i : Nat) :
    (f.number (h.get f)).testBit i = (decide (i < f.width) && h.number.testBit (i + f.lowest)) := by
  rw [number_get, Nat.testBit_mod_two_pow, Nat.testBit_div_two_pow]

theorem eq_of_testBit_eq {h h' : Header}
    (hbits : ∀ i < 32, h.number.testBit i = h'.number.testBit i) : h = h' := by
  have hsmall (h : Header) {i : Nat} (hi : ¬ i < 32) : h.number.testBit i = false :=
    Nat.testBit_lt_two_pow
      (h.number_lt.trans_le (Nat.pow_le_pow_right (by decide) (Nat.not_lt.1 hi)))
  refine number_inj (Nat.eq_of_testBit_eq fun i => ?_)
  by_cases hi : i < 32
  · exact hbits i hi
  · rw [hsmall h hi, hsmall h' hi]

/-! ## Getting and setting -/

theorem get_set (f : HeaderField) (v : f.Value) : (h.set f v).get f = f.kept v := by
  refine HeaderField.number_inj (Nat.eq_of_testBit_eq fun i => ?_)
  rw [testBit_get, HeaderField.number_kept, Nat.testBit_mod_two_pow]
  by_cases hi : i < f.width
  · have hcovers := HeaderField.covers_add_lowest hi
    rw [h.testBit_set f v (hcovers.2.trans_le f.lowest_add_width_le), if_pos hcovers,
      Nat.add_sub_cancel]
  · simp [hi]

theorem get_set_of_ne {f g : HeaderField} (hne : f ≠ g) (v : f.Value) :
    (h.set f v).get g = h.get g := by
  refine HeaderField.number_inj (Nat.eq_of_testBit_eq fun i => ?_)
  rw [testBit_get, testBit_get]
  by_cases hi : i < g.width
  · have hcovers := HeaderField.covers_add_lowest hi
    rw [h.testBit_set f v (hcovers.2.trans_le g.lowest_add_width_le),
      if_neg fun hf => hne (hf.unique hcovers)]
  · simp [hi]

theorem set_comm {f g : HeaderField} (hne : f ≠ g) (v : f.Value) (w : g.Value) :
    (h.set f v).set g w = (h.set g w).set f v := by
  refine eq_of_testBit_eq fun i hi => ?_
  simp only [testBit_set _ _ _ hi]
  by_cases hf : f.Covers i
  · have hg : ¬ g.Covers i := fun hg => hne (hf.unique hg)
    simp [hf, hg]
  · simp [hf]

theorem eq_of_get_eq {h h' : Header} (heq : ∀ f, h.get f = h'.get f) : h = h' := by
  refine eq_of_testBit_eq fun i hi => ?_
  obtain ⟨f, hle, hlt⟩ : ∃ f : HeaderField, f.Covers i :=
    ⟨_, (HeaderField.covers_iff_fieldAt_eq _ i hi).2 rfl⟩
  have hwidth : i - f.lowest < f.width := by omega
  have hbit := congrArg (fun v => (f.number v).testBit (i - f.lowest)) (heq f)
  simpa only [testBit_get, hwidth, decide_true, Bool.true_and, Nat.sub_add_cancel hle] using hbit

end Header

/-! ## Any number of settings -/

structure HeaderSetting where
  field : HeaderField
  value : field.Value

namespace Header

def setAll (h : Header) (settings : List HeaderSetting) : Header :=
  settings.foldl (fun h s => h.set s.field s.value) h

theorem get_setAll_of_forall_ne {settings : List HeaderSetting} {f : HeaderField}
    (hne : ∀ s ∈ settings, s.field ≠ f) (h : Header) : (h.setAll settings).get f = h.get f := by
  induction settings generalizing h with
  | nil => rfl
  | cons s settings ih =>
      obtain ⟨hs, hrest⟩ := List.forall_mem_cons.1 hne
      calc ((h.set s.field s.value).setAll settings).get f
        _ = (h.set s.field s.value).get f := ih hrest _
        _ = h.get f := h.get_set_of_ne hs s.value

theorem get_setAll_of_last {before later : List HeaderSetting} {f : HeaderField} {v : f.Value}
    (hne : ∀ s ∈ later, s.field ≠ f) (h : Header) :
    (h.setAll (before ++ ⟨f, v⟩ :: later)).get f = f.kept v := by
  have hsplit : h.setAll (before ++ ⟨f, v⟩ :: later) = ((h.setAll before).set f v).setAll later :=
    List.foldl_append
  rw [hsplit, get_setAll_of_forall_ne hne, get_set]

/-- After any settings, a field reads as what it keeps of the last value that it was
set to, and as before if it was not set. Different fields can be set in any order.
Headers with the same fields are the same, and a header that is written behind some
octets and before others is read back as it is. -/
theorem fields_independent (h : Header) (settings : List HeaderSetting) :
    let after := h.setAll settings
    (∀ f v before later, settings = before ++ ⟨f, v⟩ :: later → (∀ s ∈ later, s.field ≠ f) →
      after.get f = f.kept v) ∧
    (∀ f, (∀ s ∈ settings, s.field ≠ f) → after.get f = h.get f) ∧
    (∀ f g v w, f ≠ g → (after.set f v).set g w = (after.set g w).set f v) ∧
    (∀ h' : Header, (∀ f, after.get f = h'.get f) → after = h') ∧
    ∀ (c : Composer) (rest : Octets), c.octets.size + 4 ≤ c.capacity →
      ∃ written, after.write.runOn c = (.ok (), ⟨c.capacity, written⟩) ∧
        Header.read.runAt (written ++ rest) c.octets.size = (.ok after, c.octets.size + 4) := by
  intro after
  refine ⟨?_, fun f hne => get_setAll_of_forall_ne hne h, fun f g v w hne => after.set_comm hne v w,
    fun h' => eq_of_get_eq, fun c rest hroom => ⟨c.octets ++ after.octets, ?_, ?_⟩⟩
  · rintro f v before later rfl hne
    exact get_setAll_of_last hne h
  · exact after.write_appends.runOn_eq hroom
  · rw [Reader.runAt_eq_ok_iff, read_eq_ok_iff]
    exact ⟨Name.standsAt_append_append _ _ _, rfl⟩

example :
    (empty.setAll [⟨.flag .response, true⟩, ⟨.opcode, ⟨0x12⟩⟩, ⟨.rcode, ⟨3⟩⟩]).bits = 0x9003 := by
  decide

end Header

end StubResolver
