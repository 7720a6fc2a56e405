import StubResolver.Proofs.Wire.Failing

/-!
# Positions in words

A machine has words of 64 bits for positions. It has to give up where a sum has no
word, where a difference would be negative, and where a slice is not all within the
message. The reads of this file and of those that follow it are what such a machine
does for each read, step by step, with every sum, difference and slice. In messages
whose octets a word can count they come to what the reads themselves come to.
-/

namespace StubResolver

/-- Reads at a position in a word. It is `none` where the machine gives up. -/
abbrev WordReader (α : Type) := ReaderT Octets (ExceptT ParseError (StateT UInt64 Option)) α

open Name

namespace WordReader

variable {α β : Type}

/-! ## What the machine does -/

def sum? (a b : UInt64) : Option UInt64 :=
  if a.toNat + b.toNat < UInt64.size then some (a + b) else none

def difference? (a b : UInt64) : Option UInt64 := if b ≤ a then some (a - b) else none

def slice? (m : Octets) (start stop : UInt64) : Option (List UInt8) :=
  if start ≤ stop ∧ stop.toNat ≤ m.size then some (m.extract start.toNat stop.toNat).toList
  else none

def orGiveUp (value : Option α) : WordReader α := fun _ pos => value.map fun v => (.ok v, pos)

def fail (e : ParseError) : WordReader α := fun _ pos => some (.error e, pos)

def size : WordReader UInt64 := fun m pos => some (.ok m.size.toUInt64, pos)

def position : WordReader UInt64 := fun _ pos => some (.ok pos, pos)

def moveTo (target : UInt64) : WordReader Unit := fun _ _ => some (.ok (), target)

/-! ## Single reads -/

def remaining : WordReader UInt64 := fun m pos =>
  (difference? m.size.toUInt64 pos).map fun count => (.ok count, pos)

def seek (target : UInt64) : WordReader Unit := fun m pos =>
  if target ≤ m.size.toUInt64 then some (.ok (), target) else some (.error .shortInput, pos)

/-- Here a sum that has no word is noticed. -/
def require (count : UInt64) : WordReader Unit := fun m pos =>
  match sum? pos count with
  | some stop =>
    if stop ≤ m.size.toUInt64 then some (.ok (), pos) else some (.error .shortInput, pos)
  | none => some (.error .shortInput, pos)

def skip (count : UInt64) : WordReader Unit := do
  require count
  let start ← position
  let stop ← orGiveUp (sum? start count)
  moveTo stop

def retreat (count : UInt64) : WordReader Unit := fun _ pos =>
  match difference? pos count with
  | some target => some (.ok (), target)
  | none => some (.error .shortInput, pos)

def slice (start stop : UInt64) : WordReader (List UInt8) := fun m pos =>
  (slice? m start stop).map fun octets => (.ok octets, pos)

def take (count : UInt64) : WordReader (List UInt8) := do
  require count
  let start ← position
  let stop ← orGiveUp (sum? start count)
  let octets ← slice start stop
  moveTo stop
  return octets

def fixed (count : UInt64) (value? : List UInt8 → Option α) : WordReader α := do
  let octets ← take count
  orGiveUp (value? octets)

def u8 : WordReader UInt8 := fixed 1 fun
  | [o] => some o
  | _ => none

def u16 : WordReader UInt16 := fixed 2 fun
  | [high, low] => some (Wire.join16 high low)
  | _ => none

def u32 : WordReader UInt32 := fixed 4 fun
  | [a, b, c, d] => some (Wire.join32 a b c d)
  | _ => none

def u16LittleEndian : WordReader UInt16 := fixed 2 fun
  | [low, high] => some (Wire.join16 high low)
  | _ => none

def u32LittleEndian : WordReader UInt32 := fixed 4 fun
  | [a, b, c, d] => some (Wire.join32 d c b a)
  | _ => none

def i32 : WordReader Int32 := do
  let v ← u32
  return v.toInt32

def ip4 : WordReader Ip4 := fixed 4 fun octets => (vectorOf? 4 octets).map Ip4.mk

def ip6 : WordReader Ip6 := fixed 16 fun octets => (vectorOf? 16 octets).map Ip6.mk

def textOfLength (count : UInt64) : WordReader String := do
  let octets ← take count
  return Text.lossy octets

def text : WordReader String := do
  let count ← u8
  textOfLength count.toUInt64

/-! ## Runs of the machine -/

section

variable {m : Octets} {pos mid stop : UInt64} {x : WordReader α} {f : α → WordReader β} {a : α}
  {e : ParseError}

theorem bind_of_ok (h : x m pos = some (.ok a, mid)) : (x >>= f) m pos = f a m mid := by
  change (x m pos).bind _ = _
  rw [h]
  rfl

theorem bind_of_error (h : x m pos = some (.error e, stop)) :
    (x >>= f) m pos = some (.error e, stop) := by
  change (x m pos).bind _ = _
  rw [h]
  rfl

theorem run_orGiveUp {value : Option α} (h : value = some a) :
    orGiveUp value m pos = some (.ok a, pos) := by
  rw [h]
  rfl

section

variable {turn : β → WordReader (β ⊕ α)} [Nonempty α] {b b' : β}

theorem run_repeatM : repeatM turn b m pos = (turn b >>= Sum.elim (repeatM turn) pure) m pos := by
  rw [repeatM_eq_of_monadTail]
  refine congrArg (fun f => (turn b >>= f) m pos) (funext fun r => ?_)
  cases r <;> rfl

theorem repeatM_of_inl (h : turn b m pos = some (.ok (.inl b'), mid)) :
    repeatM turn b m pos = repeatM turn b' m mid := by
  rw [run_repeatM, bind_of_ok h]
  rfl

theorem repeatM_of_inr (h : turn b m pos = some (.ok (.inr a), mid)) :
    repeatM turn b m pos = some (.ok a, mid) := by
  rw [run_repeatM, bind_of_ok h]
  rfl

theorem repeatM_of_error (h : turn b m pos = some (.error e, stop)) :
    repeatM turn b m pos = some (.error e, stop) := by
  rw [run_repeatM, bind_of_error h]

end

theorem run_position : position m pos = some (.ok pos, pos) := rfl

end

/-- From a position in the message on it goes in words
as it does in numbers, and stays in the message. -/
structure AgreesAt (m : Octets) (pos : Nat) (w : WordReader α) (r : Reader α) : Prop where
  within : (r.runAt m pos).2 ≤ m.size
  result : w m pos.toUInt64 = some ((r.runAt m pos).1, (r.runAt m pos).2.toUInt64)

def Agrees (m : Octets) (w : WordReader α) (r : Reader α) : Prop :=
  ∀ pos ≤ m.size, AgreesAt m pos w r

variable {m : Octets} {pos next : Nat} {w : WordReader α} {r : Reader α}

theorem agreesAt_of_ok {a : α} (hr : r m pos = .ok a next) (hnext : next ≤ m.size)
    (hw : w m pos.toUInt64 = some (.ok a, next.toUInt64)) : AgreesAt m pos w r := by
  have hrun := Reader.runAt_eq_ok_iff.2 hr
  exact ⟨hrun ▸ hnext, hrun ▸ hw⟩

theorem agreesAt_of_error {e : ParseError} (hr : r m pos = .error e next) (hnext : next ≤ m.size)
    (hw : w m pos.toUInt64 = some (.error e, next.toUInt64)) : AgreesAt m pos w r := by
  have hrun := Reader.runAt_eq_error_iff.2 hr
  exact ⟨hrun ▸ hnext, hrun ▸ hw⟩

theorem AgreesAt.of_ok {a : α} (h : AgreesAt m pos w r) (hr : r m pos = .ok a next) :
    w m pos.toUInt64 = some (.ok a, next.toUInt64) ∧ next ≤ m.size := by
  have hrun := Reader.runAt_eq_ok_iff.2 hr
  exact ⟨h.result.trans (by rw [hrun]), by simpa [hrun] using h.within⟩

theorem AgreesAt.of_error {e : ParseError} (h : AgreesAt m pos w r) (hr : r m pos = .error e next) :
    w m pos.toUInt64 = some (.error e, next.toUInt64) ∧ next ≤ m.size := by
  have hrun := Reader.runAt_eq_error_iff.2 hr
  exact ⟨h.result.trans (by rw [hrun]), by simpa [hrun] using h.within⟩

theorem AgreesAt.congr {w' : WordReader α} {r' : Reader α} (h : AgreesAt m next w' r')
    (hr : r m pos = r' m next) (hw : w m pos.toUInt64 = w' m next.toUInt64) :
    AgreesAt m pos w r := by
  have hrun : r.runAt m pos = r'.runAt m next := by
    unfold Reader.runAt
    rw [hr]
  exact ⟨hrun ▸ h.within, hrun ▸ hw.trans h.result⟩

theorem agrees_pure (a : α) : Agrees m (pure a) (pure a) :=
  fun _ hpos => agreesAt_of_ok rfl hpos rfl

theorem agrees_fail (e : ParseError) : Agrees m (fail e : WordReader α) (Reader.fail e) :=
  fun _ hpos => agreesAt_of_error rfl hpos rfl

theorem AgreesAt.bind {g : α → WordReader β} {f : α → Reader β} (h : AgreesAt m pos w r)
    (h' : ∀ a mid, r m pos = .ok a mid → mid ≤ m.size → AgreesAt m mid (g a) (f a)) :
    AgreesAt m pos (w >>= g) (r >>= f) := by
  cases hr : r m pos with
  | ok a mid =>
      obtain ⟨hw, hmid⟩ := h.of_ok hr
      exact (h' a mid hr hmid).congr (Reader.bind_of_ok hr) (bind_of_ok hw)
  | error e stop =>
      obtain ⟨hw, hstop⟩ := h.of_error hr
      exact agreesAt_of_error (Reader.bind_eq_error_iff.2 (.inl hr)) hstop (bind_of_error hw)

theorem AgreesAt.after_position {g : UInt64 → WordReader β} {f : Nat → Reader β}
    (h : AgreesAt m pos (g pos.toUInt64) (f pos)) :
    AgreesAt m pos (position >>= g) (Reader.position >>= f) :=
  h.congr rfl rfl

theorem AgreesAt.after_value {value : Option α} {a : α} {g : α → WordReader β} {r : Reader β}
    (hvalue : value = some a) (h : AgreesAt m pos (g a) r) :
    AgreesAt m pos (orGiveUp value >>= g) r :=
  h.congr rfl (bind_of_ok (run_orGiveUp hvalue))

theorem Agrees.bind {g : α → WordReader β} {f : α → Reader β} (h : Agrees m w r)
    (h' : ∀ a, Agrees m (g a) (f a)) : Agrees m (w >>= g) (r >>= f) :=
  fun pos hpos => (h pos hpos).bind fun a mid _ hmid => h' a mid hmid

theorem Agrees.map (h : Agrees m w r) (f : α → β) : Agrees m (f <$> w) (f <$> r) := by
  rw [map_eq_pure_bind, map_eq_pure_bind]
  exact h.bind fun a => agrees_pure (f a)

/-! ## Arithmetic -/

theorem sum?_of_lt {count : UInt64} (hlt : pos + count.toNat < UInt64.size) :
    sum? pos.toUInt64 count = some (pos + count.toNat).toUInt64 := by
  have hpos : pos.toUInt64.toNat = pos := UInt64.toNat_ofNat_of_lt' (by omega)
  have hsum : pos.toUInt64 + count = (pos + count.toNat).toUInt64 := by
    rw [← UInt64.toNat_inj, UInt64.toNat_add, UInt64.toNat_ofNat_of_lt' hlt, hpos]
    exact Nat.mod_eq_of_lt hlt
  rw [sum?, if_pos (by omega), hsum]

variable (hsize : m.size < UInt64.size)
include hsize

theorem toNat_toUInt64 (hpos : pos ≤ m.size) : pos.toUInt64.toNat = pos :=
  UInt64.toNat_ofNat_of_lt' (Nat.lt_of_le_of_lt hpos hsize)

theorem le_size_iff {target : UInt64} : target ≤ m.size.toUInt64 ↔ target.toNat ≤ m.size := by
  rw [UInt64.le_iff_toNat_le, toNat_toUInt64 hsize (Nat.le_refl _)]

theorem sum?_of_room {count : UInt64} (hroom : pos + count.toNat ≤ m.size) :
    sum? pos.toUInt64 count = some (pos + count.toNat).toUInt64 :=
  sum?_of_lt (Nat.lt_of_le_of_lt hroom hsize)

theorem size_lt_of_sum? {count stop : UInt64} (hpos : pos ≤ m.size)
    (hshort : m.size < pos + count.toNat) (hsum : sum? pos.toUInt64 count = some stop) :
    m.size < stop.toNat := by
  have hpos := toNat_toUInt64 hsize hpos
  unfold sum? at hsum
  split at hsum
  · rename_i hlt
    obtain rfl := Option.some.inj hsum
    rw [UInt64.toNat_add, hpos, Nat.mod_eq_of_lt (by rw [← hpos]; exact hlt)]
    exact hshort
  · cases hsum

theorem slice?_of_room {count : Nat} (hroom : pos + count ≤ m.size) :
    slice? m pos.toUInt64 (pos + count).toUInt64 =
      some (m.extract pos (pos + count)).toList := by
  have hpos : pos.toUInt64.toNat = pos := toNat_toUInt64 hsize (by omega)
  have hstop := toNat_toUInt64 hsize hroom
  rw [slice?, if_pos ⟨UInt64.le_iff_toNat_le.2 (by omega), by omega⟩, hpos, hstop]

theorem toUInt64_le_toUInt64 (hpos : pos ≤ next) (hnext : next ≤ m.size) :
    pos.toUInt64 ≤ next.toUInt64 := by
  rw [UInt64.le_iff_toNat_le, toNat_toUInt64 hsize hnext,
    toNat_toUInt64 hsize (hpos.trans hnext)]
  exact hpos

theorem toUInt64_sub (hpos : pos ≤ next) (hnext : next ≤ m.size) :
    next.toUInt64 - pos.toUInt64 = (next - pos).toUInt64 := by
  have hle := toUInt64_le_toUInt64 hsize hpos hnext
  rw [← UInt64.toNat_inj, UInt64.toNat_sub_of_le _ _ hle, toNat_toUInt64 hsize hnext,
    toNat_toUInt64 hsize (hpos.trans hnext), toNat_toUInt64 hsize (by omega)]

theorem difference?_of_le (hpos : pos ≤ next) (hnext : next ≤ m.size) :
    difference? next.toUInt64 pos.toUInt64 = some (next - pos).toUInt64 := by
  rw [difference?, if_pos (toUInt64_le_toUInt64 hsize hpos hnext), toUInt64_sub hsize hpos hnext]

/-! ## Single reads agree -/

theorem run_seek_of_le {target : Nat} {start : UInt64} (htarget : target ≤ m.size) :
    seek target.toUInt64 m start = some (.ok (), target.toUInt64) :=
  if_pos ((le_size_iff hsize).2 ((toNat_toUInt64 hsize htarget).trans_le htarget))

theorem agrees_seek (target : UInt64) : Agrees m (seek target) (Reader.seek target.toNat) := by
  intro pos hpos
  by_cases htarget : target.toNat ≤ m.size
  · refine agreesAt_of_ok (if_pos htarget) htarget ?_
    simpa using run_seek_of_le hsize htarget
  · exact agreesAt_of_error (if_neg htarget) hpos (if_neg (mt (le_size_iff hsize).1 htarget))

theorem run_require_of_room {count : UInt64} (hroom : pos + count.toNat ≤ m.size) :
    require count m pos.toUInt64 = some (.ok (), pos.toUInt64) := by
  have hstop := toNat_toUInt64 hsize hroom
  rw [require, sum?_of_room hsize hroom]
  exact if_pos ((le_size_iff hsize).2 (hstop.trans_le hroom))

theorem run_require_of_short {count : UInt64} (hpos : pos ≤ m.size)
    (hshort : m.size < pos + count.toNat) :
    require count m pos.toUInt64 = some (.error .shortInput, pos.toUInt64) := by
  unfold require
  cases hsum : sum? pos.toUInt64 count with
  | none => rfl
  | some stop =>
      have hstop := size_lt_of_sum? hsize hpos hshort hsum
      exact if_neg fun hle => Nat.not_le.2 hstop ((le_size_iff hsize).1 hle)

theorem agrees_require (count : UInt64) :
    Agrees m (require count) (Reader.require count.toNat) := by
  intro pos hpos
  by_cases hroom : pos + count.toNat ≤ m.size
  · exact agreesAt_of_ok (if_pos hroom) hpos (run_require_of_room hsize hroom)
  · exact agreesAt_of_error (if_neg hroom) hpos
      (run_require_of_short hsize hpos (Nat.not_le.1 hroom))

theorem agrees_skip (count : UInt64) : Agrees m (skip count) (Reader.skip count.toNat) := by
  intro pos hpos
  unfold skip
  by_cases hroom : pos + count.toNat ≤ m.size
  · refine agreesAt_of_ok (if_pos hroom) hroom ?_
    rw [bind_of_ok (run_require_of_room hsize hroom), bind_of_ok run_position,
      bind_of_ok (run_orGiveUp (sum?_of_room hsize hroom))]
    rfl
  · exact agreesAt_of_error (if_neg hroom) hpos
      (bind_of_error (run_require_of_short hsize hpos (Nat.not_le.1 hroom)))

theorem agrees_take (count : UInt64) : Agrees m (take count) (Reader.take count.toNat) := by
  intro pos hpos
  unfold take
  by_cases hroom : pos + count.toNat ≤ m.size
  · refine agreesAt_of_ok (if_pos hroom) hroom ?_
    have hslice : slice pos.toUInt64 (pos + count.toNat).toUInt64 m pos.toUInt64 =
        some (.ok (m.extract pos (pos + count.toNat)).toList, pos.toUInt64) := by
      rw [slice, slice?_of_room hsize hroom]
      rfl
    rw [bind_of_ok (run_require_of_room hsize hroom), bind_of_ok run_position,
      bind_of_ok (run_orGiveUp (sum?_of_room hsize hroom)), bind_of_ok hslice]
    rfl
  · exact agreesAt_of_error (if_neg hroom) hpos
      (bind_of_error (run_require_of_short hsize hpos (Nat.not_le.1 hroom)))

theorem agrees_fixed {count : Nat} {value? : List UInt8 → Option α} {f : Vector UInt8 count → α}
    (hcount : count < UInt64.size) (hvalue : ∀ v, value? v.toList = some (f v)) :
    Agrees m (fixed count.toUInt64 value?) (Reader.fixed count >>= fun v => pure (f v)) := by
  intro pos hpos
  have htake := agrees_take hsize count.toUInt64 pos hpos
  rw [UInt64.toNat_ofNat_of_lt' hcount] at htake
  unfold fixed
  by_cases hroom : pos + count ≤ m.size
  · obtain ⟨v, hread⟩ : ∃ v, Reader.fixed count m pos = .ok v (pos + count) := ⟨_, dif_pos hroom⟩
    have hlist : Reader.take count m pos = .ok v.toList (pos + count) :=
      Reader.take_eq_ok_iff.2 ⟨(Reader.fixed_eq_ok_iff.1 hread).1, v.length_toList, hroom, rfl⟩
    refine agreesAt_of_ok (Reader.bind_of_ok hread) hroom ?_
    rw [bind_of_ok (htake.of_ok hlist).1]
    exact run_orGiveUp (hvalue v)
  · refine agreesAt_of_error (Reader.bind_eq_error_iff.2 (.inl (dif_neg hroom))) hpos ?_
    exact bind_of_error (htake.of_error (if_neg hroom)).1

theorem agrees_u8 : Agrees m u8 Reader.u8 := by
  refine agrees_fixed hsize (by decide) fun v => ?_
  obtain ⟨⟨octets⟩, hlength⟩ := v
  obtain ⟨o, rfl⟩ := List.length_eq_one_iff.1 hlength
  rfl

theorem agrees_u16 : Agrees m u16 Reader.u16 := by
  refine agrees_fixed hsize (by decide) fun v => ?_
  obtain ⟨a, b, rfl⟩ := Wire.exists_eq_two v
  rfl

theorem agrees_u32 : Agrees m u32 Reader.u32 := by
  refine agrees_fixed hsize (by decide) fun v => ?_
  obtain ⟨a, b, c, d, rfl⟩ := Wire.exists_eq_four v
  rfl

theorem agrees_u16LittleEndian : Agrees m u16LittleEndian Reader.u16LittleEndian := by
  refine agrees_fixed hsize (by decide) fun v => ?_
  obtain ⟨a, b, rfl⟩ := Wire.exists_eq_two v
  rfl

theorem agrees_u32LittleEndian : Agrees m u32LittleEndian Reader.u32LittleEndian := by
  refine agrees_fixed hsize (by decide) fun v => ?_
  obtain ⟨a, b, c, d, rfl⟩ := Wire.exists_eq_four v
  rfl

theorem agrees_i32 : Agrees m i32 Reader.i32 := (agrees_u32 hsize).bind fun _ => agrees_pure _

theorem agrees_ip4 : Agrees m ip4 Reader.ip4 :=
  agrees_fixed hsize (by decide) fun v => congrArg (Option.map Ip4.mk) (vectorOf?_toList v)

theorem agrees_ip6 : Agrees m ip6 Reader.ip6 :=
  agrees_fixed hsize (by decide) fun v => congrArg (Option.map Ip6.mk) (vectorOf?_toList v)

theorem agrees_textOfLength (count : UInt64) :
    Agrees m (textOfLength count) (Reader.textOfLength count.toNat) :=
  (agrees_take hsize count).bind fun _ => agrees_pure _

theorem agrees_text : Agrees m text Reader.text :=
  (agrees_u8 hsize).bind fun count => by
    have h := agrees_textOfLength hsize count.toUInt64
    rwa [UInt8.toNat_toUInt64] at h

end WordReader
end StubResolver
