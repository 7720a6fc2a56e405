import StubResolver.Proofs.Record.InWords

/-!
# Positions under any reads

Whoever reads a message may do so in any order, with any arguments, and go on after
reads that failed. The position stays within the message all the while. Reads of a
fixed number of octets take exactly those that stand at the position, or leave it
where it is.
-/

namespace StubResolver

inductive ReaderAct where
  | start
  | startAt (target : UInt64)
  | seek (target : UInt64)
  | skip (count : UInt64)
  | require (count : UInt64)
  | u8
  | u16
  | u32
  | i32
  | u16LittleEndian
  | u32LittleEndian
  | take (count : UInt64)
  | text
  | textOfLength (count : UInt64)
  | ip4
  | ip6
  | name
  | question
  | record

namespace ReaderAct

def Value : ReaderAct → Type
  | start | startAt _ | seek _ | skip _ | require _ => Unit
  | u8 => UInt8
  | u16 | u16LittleEndian => UInt16
  | u32 | u32LittleEndian => UInt32
  | i32 => Int32
  | take _ => List UInt8
  | text | textOfLength _ => String
  | ip4 => Ip4
  | ip6 => Ip6
  | name => Name
  | question => Question
  | record => Record

def read : (act : ReaderAct) → Reader act.Value
  | start => Reader.seek 0
  | startAt target | seek target => Reader.seek target.toNat
  | skip count => Reader.skip count.toNat
  | require count => Reader.require count.toNat
  | u8 => Reader.u8
  | u16 => Reader.u16
  | u32 => Reader.u32
  | i32 => Reader.i32
  | u16LittleEndian => Reader.u16LittleEndian
  | u32LittleEndian => Reader.u32LittleEndian
  | take count => Reader.take count.toNat
  | text => Reader.text
  | textOfLength count => Reader.textOfLength count.toNat
  | ip4 => Reader.ip4
  | ip6 => Reader.ip6
  | name => Name.read
  | question => Question.read
  | record => Registry.standard.readRecord

def inWords : (act : ReaderAct) → WordReader act.Value
  | start => WordReader.seek 0
  | startAt target | seek target => WordReader.seek target
  | skip count => WordReader.skip count
  | require count => WordReader.require count
  | u8 => WordReader.u8
  | u16 => WordReader.u16
  | u32 => WordReader.u32
  | i32 => WordReader.i32
  | u16LittleEndian => WordReader.u16LittleEndian
  | u32LittleEndian => WordReader.u32LittleEndian
  | take count => WordReader.take count
  | text => WordReader.text
  | textOfLength count => WordReader.textOfLength count
  | ip4 => WordReader.ip4
  | ip6 => WordReader.ip6
  | name => WordReader.name
  | question => WordReader.question
  | record => WordReader.record

def width : ReaderAct → Option Nat
  | skip count | take count | textOfLength count => some count.toNat
  | u8 => some 1
  | u16 | u16LittleEndian => some 2
  | u32 | u32LittleEndian | i32 | ip4 => some 4
  | ip6 => some 16
  | _ => none

def MadeOf : (act : ReaderAct) → act.Value → List UInt8 → Prop
  | u8, v, os => os = [v]
  | u16, v, os => os = Wire.octets16 v
  | u32, v, os => os = Wire.octets32 v
  | i32, v, os => os = Wire.octets32 v.toUInt32
  | u16LittleEndian, v, os => os = (Wire.octets16 v).reverse
  | u32LittleEndian, v, os => os = (Wire.octets32 v).reverse
  | take _, v, os => os = v
  | textOfLength _, v, os => v = Text.lossy os
  | ip4, v, os => os = v.octets.toList
  | ip6, v, os => os = v.octets.toList
  | _, _, _ => True

def StaysOnFailure : ReaderAct → Prop
  | text | question | record => False
  | _ => True

end ReaderAct

/-! ## Reads of a fixed number of octets -/

/-- The read takes so many octets, which the value
is made of, or there are not as many ahead. -/
structure Reader.TakesExactly {α : Type} (m : Octets) (pos count : Nat) (reader : Reader α)
    (madeOf : α → List UInt8 → Prop) : Prop where
  ok : pos + count ≤ m.size → ∃ value, reader m pos = .ok value (pos + count) ∧
    madeOf value (m.extract pos (pos + count)).toList
  short : m.size < pos + count → reader m pos = .error .shortInput pos

namespace Reader

variable {α β : Type} {m : Octets} {pos count : Nat} {reader : Reader α}
  {madeOf : α → List UInt8 → Prop}

theorem TakesExactly.eq_of_error {e : ParseError} {stop : Nat}
    (h : TakesExactly m pos count reader madeOf) (herror : reader m pos = .error e stop) :
    stop = pos := by
  rcases Nat.lt_or_ge m.size (pos + count) with hshort | hroom
  · exact (EStateM.Result.error.inj (herror.symm.trans (h.short hshort))).2
  · obtain ⟨value, hread, -⟩ := h.ok hroom
    cases herror.symm.trans hread

theorem eq_of_seek_error {target stop : Nat} {e : ParseError}
    (h : seek target m pos = .error e stop) : stop = pos := by
  unfold seek at h
  split at h
  · cases h
  · exact (EStateM.Result.error.inj h).2.symm

theorem takesExactly_take : TakesExactly m pos count (take count) fun os os' => os' = os where
  ok hroom := ⟨_, if_pos hroom, rfl⟩
  short hshort := if_neg (Nat.not_le.2 hshort)

theorem takesExactly_skip : TakesExactly m pos count (skip count) fun _ _ => True where
  ok hroom := ⟨(), if_pos hroom, trivial⟩
  short hshort := if_neg (Nat.not_le.2 hshort)

theorem takesExactly_fixed :
    TakesExactly m pos count (fixed count) fun v os => os = v.toList where
  ok hroom := by
    obtain ⟨v, hread⟩ : ∃ v, fixed count m pos = .ok v (pos + count) := ⟨_, dif_pos hroom⟩
    have hstands := (fixed_eq_ok_iff.1 hread).1
    exact ⟨v, hread, (Name.standsAt_iff_extract v.length_toList hroom).1 hstands⟩
  short hshort := dif_neg (Nat.not_le.2 hshort)

theorem TakesExactly.bind_pure {madeOf' : β → List UInt8 → Prop} {f : α → β}
    (h : TakesExactly m pos count reader madeOf)
    (hf : ∀ v os, madeOf v os → madeOf' (f v) os) :
    TakesExactly m pos count (reader >>= fun v => pure (f v)) madeOf' where
  ok hroom := by
    obtain ⟨v, hread, hmade⟩ := h.ok hroom
    exact ⟨f v, bind_of_ok hread, hf _ _ hmade⟩
  short hshort := bind_eq_error_iff.2 (.inl (h.short hshort))

theorem takesExactly_u8 : TakesExactly m pos 1 u8 fun v os => os = [v] := by
  refine takesExactly_fixed.bind_pure fun v os h => h.trans ?_
  obtain ⟨⟨octets⟩, hlength⟩ := v
  obtain ⟨o, rfl⟩ := List.length_eq_one_iff.1 hlength
  rfl

theorem takesExactly_u16 : TakesExactly m pos 2 u16 fun v os => os = Wire.octets16 v := by
  refine takesExactly_fixed.bind_pure fun v os h => h.trans ?_
  obtain ⟨a, b, rfl⟩ := Wire.exists_eq_two v
  exact (Wire.octets16_join16 a b).symm

theorem takesExactly_u32 : TakesExactly m pos 4 u32 fun v os => os = Wire.octets32 v := by
  refine takesExactly_fixed.bind_pure fun v os h => h.trans ?_
  obtain ⟨a, b, c, d, rfl⟩ := Wire.exists_eq_four v
  exact (Wire.octets32_join32 a b c d).symm

theorem takesExactly_u16LittleEndian :
    TakesExactly m pos 2 u16LittleEndian fun v os => os = (Wire.octets16 v).reverse := by
  refine takesExactly_fixed.bind_pure fun v os h => h.trans ?_
  obtain ⟨a, b, rfl⟩ := Wire.exists_eq_two v
  exact (congrArg List.reverse (Wire.octets16_join16 b a)).symm

theorem takesExactly_u32LittleEndian :
    TakesExactly m pos 4 u32LittleEndian fun v os => os = (Wire.octets32 v).reverse := by
  refine takesExactly_fixed.bind_pure fun v os h => h.trans ?_
  obtain ⟨a, b, c, d, rfl⟩ := Wire.exists_eq_four v
  exact (congrArg List.reverse (Wire.octets32_join32 d c b a)).symm

end Reader

namespace ReaderAct

open WordReader

variable {m : Octets} {pos : Nat}

theorem agrees (hsize : m.size < 2 ^ 63) (act : ReaderAct) : Agrees m act.inWords act.read := by
  have hword := WordReader.lt_word hsize
  cases act with
  | start => exact agrees_seek hword 0
  | startAt target | seek target => exact agrees_seek hword target
  | skip count => exact agrees_skip hword count
  | require count => exact agrees_require hword count
  | u8 => exact agrees_u8 hword
  | u16 => exact agrees_u16 hword
  | u32 => exact agrees_u32 hword
  | i32 => exact agrees_i32 hword
  | u16LittleEndian => exact agrees_u16LittleEndian hword
  | u32LittleEndian => exact agrees_u32LittleEndian hword
  | take count => exact agrees_take hword count
  | text => exact agrees_text hword
  | textOfLength count => exact agrees_textOfLength hword count
  | ip4 => exact agrees_ip4 hword
  | ip6 => exact agrees_ip6 hword
  | name => exact agrees_name hword
  | question => exact agrees_question hword
  | record => exact agrees_record hsize

theorem takesExactly {count : Nat} {act : ReaderAct} (hwidth : act.width = some count) :
    Reader.TakesExactly m pos count act.read act.MadeOf := by
  cases act <;> cases hwidth
  case skip count => exact Reader.takesExactly_skip
  case take count => exact Reader.takesExactly_take
  case textOfLength count => exact Reader.takesExactly_take.bind_pure fun os os' h => h ▸ rfl
  case u8 => exact Reader.takesExactly_u8
  case u16 => exact Reader.takesExactly_u16
  case u32 => exact Reader.takesExactly_u32
  case i32 => exact Reader.takesExactly_u32.bind_pure fun v os h => h
  case u16LittleEndian => exact Reader.takesExactly_u16LittleEndian
  case u32LittleEndian => exact Reader.takesExactly_u32LittleEndian
  case ip4 | ip6 => exact Reader.takesExactly_fixed.bind_pure fun v os h => h

theorem eq_of_error {act : ReaderAct} {e : ParseError} {stop : Nat} (hstays : act.StaysOnFailure)
    (h : act.read m pos = .error e stop) : stop = pos := by
  cases act with
  | start | startAt | seek => exact Reader.eq_of_seek_error h
  | require => exact (Reader.require_eq_error_iff.1 h).2.2
  | name => exact (Name.read_eq_error h).1
  | text | question | record => exact hstays.elim
  | _ => exact (takesExactly rfl).eq_of_error h

/-- The act stays in the message, and goes in words as it does in numbers. What it
wants it takes as a whole or not at all. -/
structure SafeAt (m : Octets) (pos : Nat) (act : ReaderAct) : Prop where
  agrees : AgreesAt m pos act.inWords act.read
  exactly : ∀ count, act.width = some count →
    Reader.TakesExactly m pos count act.read act.MadeOf
  stays : act.StaysOnFailure → ∀ e stop, act.read m pos = .error e stop → stop = pos

theorem safeAt (hsize : m.size < 2 ^ 63) (hpos : pos ≤ m.size) (act : ReaderAct) :
    act.SafeAt m pos where
  agrees := act.agrees hsize pos hpos
  exactly _ := takesExactly
  stays hstays _ _ := eq_of_error hstays

/-! ## Runs -/

/-- The position after the acts, those that failed among them. -/
def positionFrom (m : Octets) (pos : Nat) (acts : List ReaderAct) : Nat :=
  acts.foldl (fun pos act => (act.read.runAt m pos).2) pos

def positionInWordsFrom (m : Octets) (pos : UInt64) (acts : List ReaderAct) : Option UInt64 :=
  acts.foldlM (fun pos act => (act.inWords m pos).map Prod.snd) pos

theorem positionFrom_within (hsize : m.size < 2 ^ 63) (hpos : pos ≤ m.size)
    (acts : List ReaderAct) : positionFrom m pos acts ≤ m.size ∧
      positionInWordsFrom m pos.toUInt64 acts = some (positionFrom m pos acts).toUInt64 := by
  induction acts generalizing pos with
  | nil => exact ⟨hpos, rfl⟩
  | cons act acts ih =>
      have hact := act.agrees hsize pos hpos
      obtain ⟨hwithin, hwords⟩ := ih hact.within
      refine ⟨hwithin, ?_⟩
      rw [positionInWordsFrom, List.foldlM_cons, hact.result]
      exact hwords

/-- In octets that a memory can hold, a machine gets along with words for positions
whatever it is made to do with them, and after all of it each act is safe. -/
theorem stays_within (hsize : m.size < 2 ^ 63) (acts : List ReaderAct) :
    positionFrom m 0 acts ≤ m.size ∧
      positionInWordsFrom m 0 acts = some (positionFrom m 0 acts).toUInt64 ∧
      WordReader.remaining m (positionFrom m 0 acts).toUInt64 =
        some (.ok (m.size - positionFrom m 0 acts).toUInt64, (positionFrom m 0 acts).toUInt64) ∧
      ∀ act : ReaderAct, act.SafeAt m (positionFrom m 0 acts) := by
  obtain ⟨hwithin, hwords⟩ := positionFrom_within hsize (Nat.zero_le _) acts
  refine ⟨hwithin, hwords, ?_, safeAt hsize hwithin⟩
  rw [remaining, difference?_of_le (lt_word hsize) hwithin (Nat.le_refl _)]
  rfl

/-- What looks like a pointer leads behind
the end, and is no label that fits either. -/
theorem stays_within_stray_pointer :
    positionInWordsFrom #[0xC1, 0xFF, 0x00] 0 [.u8, .skip 0xFFFFFFFFFFFFFFFF, .start, .name] =
      some 0 ∧
    WordReader.remaining #[0xC1, 0xFF, 0x00] 0 = some (.ok 3, 0) := by
  have hname : Name.read #[0xC1, 0xFF, 0x00] 0 = .error .shortInput 0 := by
    rw [Name.read, Name.walk]
    rfl
  have hpos : positionFrom #[0xC1, 0xFF, 0x00] 0
      [.u8, .skip 0xFFFFFFFFFFFFFFFF, .start, .name] = 0 := by
    change (Name.read.runAt #[0xC1, 0xFF, 0x00] 0).2 = 0
    rw [Reader.runAt, hname]
  have hsafe := stays_within (m := #[0xC1, 0xFF, 0x00]) (by decide)
    [.u8, .skip 0xFFFFFFFFFFFFFFFF, .start, .name]
  rw [hpos] at hsafe
  exact ⟨hsafe.2.1, hsafe.2.2.1⟩

end ReaderAct

end StubResolver
