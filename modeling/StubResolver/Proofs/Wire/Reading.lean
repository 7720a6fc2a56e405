import Mathlib.Algebra.Group.Nat.Defs
import Mathlib.Data.List.Lemmas
import StubResolver.Message.Question
import StubResolver.Proofs.Name.NaiveWalk

/-!
# What reads take

A read that succeeds has taken octets that stand at its position, and where such
octets stand the read succeeds. Reads in a sequence take what stands behind one
another.
-/

namespace StubResolver

open Name

/-! ## Integers -/

namespace Wire

theorem or_eq_add {sum low : Nat} (i high : Nat) (hsum : sum = high * 2 ^ i) (hlow : low < 2 ^ i) :
    sum ||| low = sum + low := by
  rw [hsum, ← Nat.shiftLeft_eq, Nat.shiftLeft_add_eq_or_of_lt hlow]

theorem toNat_join16 (high low : UInt8) :
    (join16 high low).toNat = high.toNat * 0x100 + low.toNat := by
  have hhigh := high.toNat_lt
  have hlow := low.toNat_lt
  simp only [join16, UInt16.toNat_or, UInt16.toNat_shiftLeft, UInt8.toNat_toUInt16,
    UInt16.reduceToNat, Nat.reduceMod, Nat.shiftLeft_eq, Nat.reducePow]
  rw [Nat.mod_eq_of_lt (by omega)]
  exact or_eq_add 8 high.toNat rfl hlow

theorem toNat_join32 (a b c d : UInt8) :
    (join32 a b c d).toNat =
      a.toNat * 0x1000000 + b.toNat * 0x10000 + c.toNat * 0x100 + d.toNat := by
  have ha := a.toNat_lt
  have hb := b.toNat_lt
  have hc := c.toNat_lt
  have hd := d.toNat_lt
  simp only [join32, UInt32.toNat_or, UInt32.toNat_shiftLeft, UInt8.toNat_toUInt32,
    UInt32.reduceToNat, Nat.reduceMod, Nat.shiftLeft_eq, Nat.reducePow]
  have hab : a.toNat * 0x1000000 ||| b.toNat * 0x10000 = a.toNat * 0x1000000 + b.toNat * 0x10000 :=
    or_eq_add 24 a.toNat (by omega) (by omega)
  have habc : a.toNat * 0x1000000 + b.toNat * 0x10000 ||| c.toNat * 0x100 =
      a.toNat * 0x1000000 + b.toNat * 0x10000 + c.toNat * 0x100 :=
    or_eq_add 16 (a.toNat * 0x100 + b.toNat) (by omega) (by omega)
  rw [Nat.mod_eq_of_lt (by omega), Nat.mod_eq_of_lt (by omega), Nat.mod_eq_of_lt (by omega),
    hab, habc]
  exact or_eq_add 8 (a.toNat * 0x10000 + b.toNat * 0x100 + c.toNat) (by omega) hd

theorem octets16_join16 (high low : UInt8) : octets16 (join16 high low) = [high, low] := by
  have hhigh := high.toNat_lt
  have hlow := low.toNat_lt
  have hjoin := toNat_join16 high low
  simp only [octets16, List.cons.injEq, and_true]
  refine ⟨UInt8.toNat_inj.1 ?_, UInt8.toNat_inj.1 ?_⟩ <;>
    simp only [UInt16.toNat_toUInt8, UInt16.toNat_shiftRight, UInt16.reduceToNat, Nat.reduceMod,
      Nat.shiftRight_eq_div_pow, Nat.reducePow, hjoin] <;>
    omega

theorem octets32_join32 (a b c d : UInt8) : octets32 (join32 a b c d) = [a, b, c, d] := by
  have ha := a.toNat_lt
  have hb := b.toNat_lt
  have hc := c.toNat_lt
  have hd := d.toNat_lt
  have hjoin := toNat_join32 a b c d
  simp only [octets32, List.cons.injEq, and_true]
  refine ⟨UInt8.toNat_inj.1 ?_, UInt8.toNat_inj.1 ?_, UInt8.toNat_inj.1 ?_,
    UInt8.toNat_inj.1 ?_⟩ <;>
    simp only [UInt32.toNat_toUInt8, UInt32.toNat_shiftRight, UInt32.reduceToNat, Nat.reduceMod,
      Nat.shiftRight_eq_div_pow, Nat.reducePow, hjoin] <;>
    omega

theorem exists_eq_two (v : Vector UInt8 2) : ∃ a b, v = #v[a, b] := by
  obtain ⟨⟨os⟩, hlength⟩ := v
  obtain ⟨a, b, rfl⟩ := List.length_eq_two.1 hlength
  exact ⟨a, b, rfl⟩

theorem exists_eq_four (v : Vector UInt8 4) : ∃ a b c d, v = #v[a, b, c, d] := by
  obtain ⟨⟨os⟩, hlength⟩ := v
  match os, hlength with
  | [a, b, c, d], _ => exact ⟨a, b, c, d, rfl⟩

theorem octets16_injective : Function.Injective octets16 := by
  intro v w h
  have hv := v.toNat_lt
  have hw := w.toNat_lt
  simp only [octets16, List.cons.injEq, and_true, ← UInt8.toNat_inj, UInt16.toNat_toUInt8,
    UInt16.toNat_shiftRight, UInt16.reduceToNat, Nat.reduceMod, Nat.shiftRight_eq_div_pow,
    Nat.reducePow] at h
  exact UInt16.toNat_inj.1 (by omega)

theorem octets32_injective : Function.Injective octets32 := by
  intro v w h
  have hv := v.toNat_lt
  have hw := w.toNat_lt
  simp only [octets32, List.cons.injEq, and_true, ← UInt8.toNat_inj, UInt32.toNat_toUInt8,
    UInt32.toNat_shiftRight, UInt32.reduceToNat, Nat.reduceMod, Nat.shiftRight_eq_div_pow,
    Nat.reducePow] at h
  exact UInt32.toNat_inj.1 (by omega)

end Wire

/-! ## Octets behind one another -/

theorem Name.standsAt_append_iff {m : Octets} {pos : Nat} {os os' : List UInt8} :
    StandsAt m pos (os ++ os') ↔ StandsAt m pos os ∧ StandsAt m (pos + os.length) os' := by
  induction os generalizing pos with
  | nil => simp [standsAt_nil]
  | cons o os ih =>
      have hnext : pos + 1 + os.length = pos + (o :: os).length := by
        rw [List.length_cons]
        omega
      rw [List.cons_append, standsAt_cons_iff, standsAt_cons_iff, ih, hnext, and_assoc]

theorem Name.StandsAt.eq_of_length_eq {m : Octets} {pos : Nat} {os os' : List UInt8}
    (h : StandsAt m pos os) (h' : StandsAt m pos os') (hlength : os.length = os'.length) :
    os = os' :=
  (List.prefix_of_prefix_length_le h h' (Nat.le_of_eq hlength)).eq_of_length hlength

def Name.vectorOf? {α : Type} (n : Nat) (as : List α) : Option (Vector α n) :=
  if h : as.length = n then some ⟨as.toArray, h⟩ else none

theorem Name.vectorOf?_toList {α : Type} {n : Nat} (v : Vector α n) :
    vectorOf? n v.toList = some v := by
  rw [vectorOf?, dif_pos v.length_toList]
  rfl

namespace Reader

variable {α β : Type} {m : Octets} {pos next : Nat}

/-! ## Sequences of reads -/

theorem pure_eq_ok_iff {a b : α} :
    (pure a : Reader α) m pos = .ok b next ↔ a = b ∧ pos = next :=
  EStateM.Result.ok.injEq a pos b next ▸ Iff.rfl

theorem bind_eq_ok_iff {x : Reader α} {f : α → Reader β} {b : β} :
    (x >>= f) m pos = .ok b next ↔ ∃ a mid, x m pos = .ok a mid ∧ f a m mid = .ok b next := by
  change EStateM.bind (x m) (fun a => f a m) pos = _ ↔ _
  unfold EStateM.bind
  cases x m pos with
  | ok a mid =>
      constructor
      · intro h
        exact ⟨a, mid, rfl, h⟩
      · rintro ⟨_, _, ⟨⟩, h⟩
        exact h
  | error e mid => simp

theorem map_eq_ok_iff {x : Reader α} {f : α → β} {b : β} :
    (f <$> x) m pos = .ok b next ↔ ∃ a, x m pos = .ok a next ∧ f a = b := by
  change EStateM.map f (x m) pos = _ ↔ _
  unfold EStateM.map
  cases x m pos with
  | ok a mid =>
      constructor
      · rintro ⟨⟩
        exact ⟨a, rfl, rfl⟩
      · rintro ⟨_, ⟨⟩, rfl⟩
        rfl
  | error e mid => simp

/-! ## Single reads -/

theorem position_eq_ok_iff {v : Nat} : position m pos = .ok v next ↔ v = pos ∧ next = pos := by
  simp only [position, EStateM.Result.ok.injEq, eq_comm]

theorem require_eq_ok_iff {count : Nat} {v : Unit} :
    require count m pos = .ok v next ↔ pos + count ≤ m.size ∧ next = pos := by
  unfold require
  split <;> simp [*, eq_comm]

theorem take_eq_ok_iff {count : Nat} {os : List UInt8} :
    take count m pos = .ok os next ↔
      StandsAt m pos os ∧ os.length = count ∧ pos + count ≤ m.size ∧ next = pos + count := by
  unfold take
  split
  · rename_i hle
    have hlength : (m.extract pos (pos + count)).toList.length = count := by
      simp
      omega
    simp only [EStateM.Result.ok.injEq]
    constructor
    · rintro ⟨rfl, rfl⟩
      exact ⟨standsAt_extract hle, hlength, hle, rfl⟩
    · rintro ⟨hstands, hcount, -, rfl⟩
      exact ⟨(standsAt_iff_extract hcount hle).1 hstands, rfl⟩
  · simp
    omega

theorem fixed_eq_ok_iff {count : Nat} {v : Vector UInt8 count} :
    fixed count m pos = .ok v next ↔
      StandsAt m pos v.toList ∧ pos + count ≤ m.size ∧ next = pos + count := by
  have htake : take count m pos = .ok v.toList next ↔ _ := take_eq_ok_iff
  simp only [Vector.length_toList, true_and] at htake
  rw [← htake]
  unfold fixed take
  split
  · rename_i hle
    simp only [EStateM.Result.ok.injEq]
    refine and_congr_left fun _ => ?_
    have htoList : (Vector.ofFn fun i : Fin count => m[pos + i.val]).toList =
        (m.extract pos (pos + count)).toList := by
      apply List.ext_getElem
      · simp
        omega
      · intro i hi hi'
        simp
    rw [← Vector.toList_inj, htoList]
  · simp

theorem fixed_eq_ok_iff_of_pos {count : Nat} (hcount : 0 < count) {v : Vector UInt8 count} :
    fixed count m pos = .ok v next ↔ StandsAt m pos v.toList ∧ next = pos + count := by
  rw [fixed_eq_ok_iff]
  refine and_congr_right fun hstands => and_iff_right ?_
  have hle := hstands.length_le (List.ne_nil_of_length_pos (by simpa using hcount))
  rwa [Vector.length_toList] at hle

theorem u16_eq_ok_iff {v : UInt16} :
    u16 m pos = .ok v next ↔ StandsAt m pos (Wire.octets16 v) ∧ next = pos + 2 := by
  unfold u16
  rw [bind_eq_ok_iff]
  constructor
  · rintro ⟨w, mid, hfixed, hpure⟩
    obtain ⟨hstands, rfl⟩ := (fixed_eq_ok_iff_of_pos (Nat.succ_pos 1)).1 hfixed
    obtain ⟨rfl, rfl⟩ := pure_eq_ok_iff.1 hpure
    obtain ⟨a, b, rfl⟩ := Wire.exists_eq_two w
    exact ⟨(Wire.octets16_join16 a b).symm ▸ hstands, rfl⟩
  · rintro ⟨hstands, rfl⟩
    refine ⟨#v[(v >>> 8).toUInt8, v.toUInt8], pos + 2,
      (fixed_eq_ok_iff_of_pos (Nat.succ_pos 1)).2 ⟨hstands, rfl⟩, ?_⟩
    exact pure_eq_ok_iff.2 ⟨Wire.octets16_injective (Wire.octets16_join16 _ _), rfl⟩

theorem u32_eq_ok_iff {v : UInt32} :
    u32 m pos = .ok v next ↔ StandsAt m pos (Wire.octets32 v) ∧ next = pos + 4 := by
  unfold u32
  rw [bind_eq_ok_iff]
  constructor
  · rintro ⟨w, mid, hfixed, hpure⟩
    obtain ⟨hstands, rfl⟩ := (fixed_eq_ok_iff_of_pos (Nat.succ_pos 3)).1 hfixed
    obtain ⟨rfl, rfl⟩ := pure_eq_ok_iff.1 hpure
    obtain ⟨a, b, c, d, rfl⟩ := Wire.exists_eq_four w
    exact ⟨(Wire.octets32_join32 a b c d).symm ▸ hstands, rfl⟩
  · rintro ⟨hstands, rfl⟩
    refine ⟨#v[(v >>> 24).toUInt8, (v >>> 16).toUInt8, (v >>> 8).toUInt8, v.toUInt8], pos + 4,
      (fixed_eq_ok_iff_of_pos (Nat.succ_pos 3)).2 ⟨hstands, rfl⟩, ?_⟩
    exact pure_eq_ok_iff.2 ⟨Wire.octets32_injective (Wire.octets32_join32 _ _ _ _), rfl⟩

theorem i32_eq_ok_iff {v : Int32} :
    i32 m pos = .ok v next ↔ StandsAt m pos (Wire.octets32 v.toUInt32) ∧ next = pos + 4 := by
  unfold i32
  rw [bind_eq_ok_iff]
  constructor
  · rintro ⟨w, mid, hu32, hpure⟩
    obtain ⟨rfl, rfl⟩ := pure_eq_ok_iff.1 hpure
    rwa [u32_eq_ok_iff] at hu32
  · intro h
    exact ⟨v.toUInt32, next, u32_eq_ok_iff.2 h, pure_eq_ok_iff.2 ⟨rfl, rfl⟩⟩

end Reader

/-! ## Rows of reads -/

/-- Values in a row: each stands at a position, and the next one where it ends. -/
inductive Tiles {α : Type} (stands : Nat → α → Nat → Prop) : Nat → List α → Nat → Prop where
  | nil (pos : Nat) : Tiles stands pos [] pos
  | cons {pos mid next : Nat} {a : α} {rest : List α} (first : stands pos a mid)
      (tiles : Tiles stands mid rest next) : Tiles stands pos (a :: rest) next

section

variable {α β γ : Type} {stands : Nat → α → Nat → Prop} {stands' : Nat → β → Nat → Prop}
  {pos next next' : Nat} {as : List α}

theorem Tiles.mono {stands' : Nat → α → Nat → Prop} (h : Tiles stands pos as next)
    (himp : ∀ pos a next, stands pos a next → stands' pos a next) : Tiles stands' pos as next := by
  induction h with
  | nil pos => exact .nil pos
  | cons first tiles ih => exact .cons (himp _ _ _ first) ih

theorem Tiles.mono_of_split {stands' : Nat → α → Nat → Prop} (h : Tiles stands pos as next)
    (himp : ∀ done a rest mid next, as = done ++ a :: rest → Tiles stands pos done mid →
      stands mid a next → stands' mid a next) : Tiles stands' pos as next := by
  induction h with
  | nil pos => exact .nil pos
  | cons first tiles ih =>
      refine .cons (himp [] _ _ _ _ rfl (.nil _) first)
        (ih fun done a rest mid next split before => ?_)
      exact himp (_ :: done) a rest mid next (congrArg (_ :: ·) split) (.cons first before)

theorem Tiles.append {bs : List α} {mid : Nat} (h : Tiles stands pos as mid)
    (h' : Tiles stands mid bs next) : Tiles stands pos (as ++ bs) next := by
  induction h with
  | nil pos => exact h'
  | cons first tiles ih => exact .cons first (ih h')

theorem Tiles.of_append {bs : List α} (h : Tiles stands pos (as ++ bs) next) :
    ∃ mid, Tiles stands pos as mid ∧ Tiles stands mid bs next := by
  induction as generalizing pos with
  | nil => exact ⟨pos, .nil pos, h⟩
  | cons a as ih =>
      cases h with
      | cons first tiles =>
          obtain ⟨mid, htiles, hrest⟩ := ih tiles
          exact ⟨mid, .cons first htiles, hrest⟩

theorem Tiles.end_of_step {P : Nat → Prop} (h : Tiles stands pos as next) (hpos : P pos)
    (hstep : ∀ pos a next, stands pos a next → P next) : P next := by
  induction h with
  | nil pos => exact hpos
  | cons first tiles ih => exact ih (hstep _ _ _ first)

theorem Tiles.replace (h : Tiles stands pos as next)
    (hreplace : ∀ pos a next, stands pos a next → ∃ b, stands' pos b next) :
    ∃ bs, bs.length = as.length ∧ Tiles stands' pos bs next := by
  induction h with
  | nil pos => exact ⟨[], rfl, .nil pos⟩
  | cons first tiles ih =>
      obtain ⟨b, hb⟩ := hreplace _ _ _ first
      obtain ⟨bs, hlength, hbs⟩ := ih
      exact ⟨b :: bs, congrArg Nat.succ hlength, .cons hb hbs⟩

theorem Tiles.unique (f : α → γ) {stands' : Nat → α → Nat → Prop} {as' : List α}
    (h : Tiles stands pos as next) (h' : Tiles stands' pos as' next')
    (hlength : as.length = as'.length)
    (hagree : ∀ {pos a a' next next'}, stands pos a next → stands' pos a' next' →
      f a = f a' ∧ next = next') :
    as.map f = as'.map f ∧ next = next' := by
  induction h generalizing as' with
  | nil pos =>
      cases h' with
      | nil => exact ⟨rfl, rfl⟩
      | cons => simp at hlength
  | cons first tiles ih =>
      cases h' with
      | nil => simp at hlength
      | cons first' tiles' =>
          obtain ⟨hvalue, rfl⟩ := hagree first first'
          obtain ⟨hrest, rfl⟩ := ih tiles' (by simpa using hlength)
          exact ⟨congrArg₂ List.cons hvalue hrest, rfl⟩

end

namespace Reader

variable {α : Type} {m : Octets} {pos next : Nat} {reader : Reader α}

theorem repeatFrom_eq_ok_iff {done values : List α} {count : Nat} :
    repeatFrom reader done count m pos = .ok values next ↔
      ∃ rest, values = done.reverse ++ rest ∧ rest.length = count ∧
        Tiles (fun pos a next => reader m pos = .ok a next) pos rest next := by
  induction count generalizing done pos with
  | zero =>
      unfold repeatFrom
      rw [pure_eq_ok_iff]
      constructor
      · rintro ⟨rfl, rfl⟩
        exact ⟨[], by simp, rfl, .nil pos⟩
      · rintro ⟨rest, rfl, hlength, htiles⟩
        obtain rfl := List.length_eq_zero_iff.1 hlength
        cases htiles
        exact ⟨by simp, rfl⟩
  | succ count ih =>
      unfold repeatFrom
      rw [bind_eq_ok_iff]
      simp only [ih]
      constructor
      · rintro ⟨a, mid, hread, rest, rfl, rfl, htiles⟩
        exact ⟨a :: rest, by simp, rfl, .cons hread htiles⟩
      · rintro ⟨rest, rfl, hlength, htiles⟩
        cases htiles with
        | nil => simp at hlength
        | @cons _ mid _ a rest first tiles =>
            exact ⟨a, mid, first, rest, by simp, by simpa using hlength, tiles⟩

theorem repeated_eq_ok_iff {count : Nat} {values : List α} :
    repeated count reader m pos = .ok values next ↔ values.length = count ∧
      Tiles (fun pos a next => reader m pos = .ok a next) pos values next := by
  unfold repeated
  rw [repeatFrom_eq_ok_iff]
  constructor
  · rintro ⟨rest, rfl, h⟩
    exact h
  · intro h
    exact ⟨values, rfl, h⟩

end Reader

end StubResolver
