import Mathlib.Data.List.Basic
import StubResolver.Proofs.Wire.Failing
import StubResolver.Record.Data

/-!
# Character strings in record data

The data of a text record is a row of character strings, each behind its length in
one octet. Data that is no such row has a string in it that is longer than what is
left of the data. Which of the two it is, and where, hangs on the data alone and not
on the octets that come behind it.
-/

namespace StubResolver

open Name

def RecordHeader.dataAt (h : RecordHeader) (m : Octets) (start : Nat) : List UInt8 :=
  (m.extract start (start + h.dataLength.toNat)).toList

inductive CharacterStrings : List (List UInt8) → List UInt8 → Prop where
  | nil : CharacterStrings [] []
  | cons {length : UInt8} {string : List UInt8} {strings : List (List UInt8)} {rest : List UInt8}
      (complete : string.length = length.toNat) (row : CharacterStrings strings rest) :
      CharacterStrings (string :: strings) (length :: (string ++ rest))

/-- Behind a row of character strings the data has the length of another one, and
less than that is left of it. The number is how many octets go up to there. -/
inductive Overruns : List UInt8 → Nat → Prop where
  | here {length : UInt8} {rest : List UInt8} (short : rest.length < length.toNat) :
      Overruns (length :: rest) 1
  | later {length : UInt8} {string rest : List UInt8} {count : Nat}
      (complete : string.length = length.toNat) (overruns : Overruns rest count) :
      Overruns (length :: (string ++ rest)) (1 + string.length + count)

def characterStringOctets (string : List UInt8) : List UInt8 := string.length.toUInt8 :: string

/-! ## Rows of character strings -/

section

variable {strings strings' : List (List UInt8)} {data : List UInt8} {count : Nat}

theorem CharacterStrings.written (h : CharacterStrings strings data) :
    (∀ string ∈ strings, string.length ≤ 255) ∧
      strings.flatMap characterStringOctets = data := by
  induction h with
  | nil => simp
  | @cons length string strings rest complete row ih =>
      obtain ⟨hshort, hrest⟩ := ih
      have hlength := length.toNat_lt
      refine ⟨List.forall_mem_cons.2 ⟨by omega, hshort⟩, ?_⟩
      rw [List.flatMap_cons, hrest, characterStringOctets, complete]
      simp

theorem characterStrings_written (hshort : ∀ string ∈ strings, string.length ≤ 255) :
    CharacterStrings strings (strings.flatMap characterStringOctets) := by
  induction strings with
  | nil => exact .nil
  | cons string strings ih =>
      obtain ⟨hstring, hrest⟩ := List.forall_mem_cons.1 hshort
      rw [List.flatMap_cons, characterStringOctets, List.cons_append]
      refine .cons ?_ (ih hrest)
      simp
      omega

theorem CharacterStrings.unique (h : CharacterStrings strings data)
    (h' : CharacterStrings strings' data) : strings = strings' := by
  induction h generalizing strings' with
  | nil =>
      cases h'
      rfl
  | @cons length string strings rest complete row ih =>
      generalize hdata : length :: (string ++ rest) = data at h'
      cases h' with
      | nil => cases hdata
      | cons complete' row' =>
          obtain ⟨rfl, hrest⟩ := List.cons.inj hdata
          obtain ⟨rfl, rfl⟩ := List.append_inj hrest (complete.trans complete'.symm)
          rw [ih row']

theorem exists_characterStrings_or_overruns (data : List UInt8) :
    (∃ strings, CharacterStrings strings data) ∨ ∃ count, Overruns data count := by
  match data with
  | [] => exact .inl ⟨[], .nil⟩
  | length :: rest =>
      by_cases hfits : length.toNat ≤ rest.length
      · have complete : (rest.take length.toNat).length = length.toNat :=
          List.length_take_of_le hfits
        rw [← List.take_append_drop length.toNat rest]
        rcases exists_characterStrings_or_overruns (rest.drop length.toNat) with
          ⟨strings, row⟩ | ⟨count, overruns⟩
        · exact .inl ⟨_, .cons complete row⟩
        · exact .inr ⟨_, .later complete overruns⟩
      · exact .inr ⟨1, .here (Nat.not_le.1 hfits)⟩
termination_by data.length
decreasing_by
  simp only [List.length_drop, List.length_cons]
  omega

theorem Overruns.bounds (h : Overruns data count) : 0 < count ∧ count ≤ data.length := by
  induction h with
  | here short => simp
  | later complete overruns ih =>
      simp only [List.length_cons, List.length_append]
      omega

end

/-! ## Reading them -/

namespace RecordData

variable {m : Octets} {pos : Nat} {h : RecordHeader}

theorem stringsUpTo_complete {length : UInt8} {string rest : List UInt8}
    (complete : string.length = length.toNat)
    (hstands : StandsAt m pos (length :: (string ++ rest))) (done : List (List UInt8)) :
    stringsUpTo (pos + (length :: (string ++ rest)).length) done m pos =
      stringsUpTo (pos + 1 + string.length + rest.length) (string :: done) m
        (pos + 1 + string.length) := by
  have hle := hstands.length_le (List.cons_ne_nil _ _)
  obtain ⟨hlength, hbehind⟩ := standsAt_cons_iff.1 hstands
  have hstring := (standsAt_append_iff.1 hbehind).1
  simp only [List.length_cons, List.length_append] at hle ⊢
  have hroom : pos + 1 + string.length ≤ m.size := by omega
  have hstop : pos + (string.length + rest.length + 1) = pos + 1 + string.length + rest.length := by
    omega
  -- The other side is a call of the same function, and stays as it is.
  conv_lhs => rw [stringsUpTo]
  rw [if_neg (by omega)]
  simp only [hlength, ← complete]
  rw [if_neg (by omega), if_pos hroom, (standsAt_iff_extract rfl hroom).1 hstring, hstop]

theorem stringsUpTo_of_characterStrings {strings : List (List UInt8)} {data : List UInt8}
    (row : CharacterStrings strings data) (hstands : StandsAt m pos data)
    (done : List (List UInt8)) :
    stringsUpTo (pos + data.length) done m pos =
      .ok (done.reverse ++ strings) (pos + data.length) := by
  induction row generalizing pos done with
  | nil =>
      rw [stringsUpTo, if_pos (by simp)]
      simp
  | @cons length string strings rest complete row ih =>
      obtain ⟨-, hbehind⟩ := standsAt_cons_iff.1 hstands
      rw [stringsUpTo_complete complete hstands, ih (standsAt_append_iff.1 hbehind).2]
      simp
      omega

theorem stringsUpTo_of_overruns {data : List UInt8} {count : Nat} (overruns : Overruns data count)
    (hstands : StandsAt m pos data) (done : List (List UInt8)) :
    stringsUpTo (pos + data.length) done m pos =
      .error (.form "character string exceeds record data") (pos + count) := by
  induction overruns generalizing pos done with
  | @here length rest short =>
      obtain ⟨hlength, -⟩ := standsAt_cons_iff.1 hstands
      rw [stringsUpTo, if_neg (by simp)]
      simp only [hlength]
      rw [if_pos]
      simp
      omega
  | later complete overruns ih =>
      obtain ⟨-, hbehind⟩ := standsAt_cons_iff.1 hstands
      rw [stringsUpTo_complete complete hstands, ih (standsAt_append_iff.1 hbehind).2]
      simp
      omega

theorem readTxt_of_ok {strings : List (List UInt8)} {next : Nat}
    (hstrings : stringsUpTo (pos + h.dataLength.toNat) [] m pos = .ok strings next) :
    readTxt h m pos = .ok (.txt strings) next :=
  Reader.bind_eq_ok_iff.2 ⟨pos, pos, rfl, Reader.bind_eq_ok_iff.2 ⟨strings, next, hstrings, rfl⟩⟩

theorem readTxt_of_error {e : ParseError} {stop : Nat}
    (hstrings : stringsUpTo (pos + h.dataLength.toNat) [] m pos = .error e stop) :
    readTxt h m pos = .error e stop :=
  Reader.bind_eq_error_iff.2 (.inr ⟨pos, pos, rfl, Reader.bind_eq_error_iff.2 (.inl hstrings)⟩)

section

variable (hroom : pos + h.dataLength.toNat ≤ m.size)
include hroom

theorem length_dataAt : (h.dataAt m pos).length = h.dataLength.toNat := by
  simp [RecordHeader.dataAt]
  omega

theorem readTxt_of_characterStrings {strings : List (List UInt8)}
    (row : CharacterStrings strings (h.dataAt m pos)) :
    readTxt h m pos = .ok (.txt strings) (pos + h.dataLength.toNat) := by
  have hstrings := stringsUpTo_of_characterStrings row (standsAt_extract hroom) []
  rw [length_dataAt hroom] at hstrings
  exact readTxt_of_ok hstrings

theorem readTxt_of_overruns {count : Nat} (overruns : Overruns (h.dataAt m pos) count) :
    readTxt h m pos = .error (.form "character string exceeds record data") (pos + count) := by
  have hstrings := stringsUpTo_of_overruns overruns (standsAt_extract hroom) []
  rw [length_dataAt hroom] at hstrings
  exact readTxt_of_error hstrings

theorem readTxt_eq_ok_iff_characterStrings {data : RecordData} {next : Nat} :
    readTxt h m pos = .ok data next ↔ ∃ strings, CharacterStrings strings (h.dataAt m pos) ∧
      data = .txt strings ∧ next = pos + h.dataLength.toNat := by
  constructor
  · intro hread
    rcases exists_characterStrings_or_overruns (h.dataAt m pos) with
      ⟨strings, row⟩ | ⟨count, overruns⟩
    · rw [readTxt_of_characterStrings hroom row] at hread
      obtain ⟨rfl, rfl⟩ := EStateM.Result.ok.inj hread
      exact ⟨strings, row, rfl, rfl⟩
    · rw [readTxt_of_overruns hroom overruns] at hread
      cases hread
  · rintro ⟨strings, row, rfl, rfl⟩
    exact readTxt_of_characterStrings hroom row

end

/-- Where the octets that the header announces are ahead, text data is read exactly
if they are a row of character strings, each behind its length. There is at most one
such row, and it is what is read; it is written as the octets that were read, and the
reader stands behind these. Other octets are refused for their form, with the reader
still among them. Octets behind the data have no part in any of that: in another
message the same data is read in the same way. -/
theorem readTxt_takes_row (hroom : pos + h.dataLength.toNat ≤ m.size) :
    (∀ data next, readTxt h m pos = .ok data next ↔
      ∃ strings, CharacterStrings strings (h.dataAt m pos) ∧ data = .txt strings ∧
        next = pos + h.dataLength.toNat) ∧
    (∀ strings, CharacterStrings strings (h.dataAt m pos) ↔
      (∀ string ∈ strings, string.length ≤ 255) ∧
        strings.flatMap characterStringOctets = h.dataAt m pos) ∧
    (∀ strings strings', CharacterStrings strings (h.dataAt m pos) →
      CharacterStrings strings' (h.dataAt m pos) → strings = strings') ∧
    ((¬ ∃ strings, CharacterStrings strings (h.dataAt m pos)) → ∃ stop,
      readTxt h m pos = .error (.form "character string exceeds record data") stop ∧
        pos < stop ∧ stop ≤ pos + h.dataLength.toNat) ∧
    ∀ m' : Octets, pos + h.dataLength.toNat ≤ m'.size → h.dataAt m' pos = h.dataAt m pos →
      readTxt h m' pos = readTxt h m pos := by
  refine ⟨fun data next => readTxt_eq_ok_iff_characterStrings hroom, fun strings => ?_,
    fun strings strings' => CharacterStrings.unique, fun hnone => ?_, fun m' hroom' hsame => ?_⟩
  · constructor
    · exact CharacterStrings.written
    · rintro ⟨hshort, hdata⟩
      exact hdata ▸ characterStrings_written hshort
  · rcases exists_characterStrings_or_overruns (h.dataAt m pos) with row | ⟨count, overruns⟩
    · exact (hnone row).elim
    · have hbounds := overruns.bounds
      rw [length_dataAt hroom] at hbounds
      exact ⟨pos + count, readTxt_of_overruns hroom overruns, by omega, by omega⟩
  · rcases exists_characterStrings_or_overruns (h.dataAt m pos) with
      ⟨strings, row⟩ | ⟨count, overruns⟩
    · rw [readTxt_of_characterStrings hroom row, readTxt_of_characterStrings hroom' (hsame ▸ row)]
    · rw [readTxt_of_overruns hroom overruns, readTxt_of_overruns hroom' (hsame ▸ overruns)]

/-- The last of three character strings ends where
the data does, and the one in the middle is empty. -/
theorem readTxt_three_strings :
    let h : RecordHeader := ⟨.root, .txt, .internet, 60, 7⟩
    let m : Octets := #[9, 2, 0x61, 0x22, 0, 2, 0x62, 0x5C, 3]
    1 + h.dataLength.toNat ≤ m.size ∧
      readTxt h m 1 = .ok (.txt [[0x61, 0x22], [], [0x62, 0x5C]]) 8 := by
  intro h m
  have hroom : 1 + h.dataLength.toNat ≤ m.size := by decide
  have hdata : h.dataAt m 1 = 2 :: ([0x61, 0x22] ++ 0 :: ([] ++ 2 :: ([0x62, 0x5C] ++ []))) := by
    decide
  refine ⟨hroom, ((readTxt_takes_row hroom).1 _ _).2 ⟨_, ?_, rfl, rfl⟩⟩
  rw [hdata]
  exact .cons rfl (.cons rfl (.cons rfl .nil))

end RecordData

end StubResolver
