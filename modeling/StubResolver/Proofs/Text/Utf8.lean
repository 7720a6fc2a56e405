import StubResolver.Text.Ascii

/-!
# The octets of texts

A text is stored as UTF-8: as the octets of its characters in a row. An ASCII
character is a single octet, its own number, and no other character has such an octet
among its own.
-/

namespace StubResolver.Text

theorem toList_loop_eq (bs : ByteArray) (i : Nat) (done : List UInt8) :
    ByteArray.toList.loop bs i done = done.reverse ++ bs.data.toList.drop i := by
  fun_induction ByteArray.toList.loop bs i done with
  | case1 i done hlt ih =>
      have hi : i < bs.data.toList.length := hlt
      have hget : bs.get! i = bs.data.toList[i] := getElem!_pos bs.data i hlt
      rw [ih, List.reverse_cons, List.append_assoc, List.singleton_append,
        List.drop_eq_getElem_cons hi, hget]
  | case2 i done hge =>
      have hdrop : bs.data.toList.drop i = [] := List.drop_eq_nil_of_le (Nat.not_lt.1 hge)
      rw [hdrop, List.append_nil]

theorem octetsOf_eq_data (s : String) : octetsOf s = s.toByteArray.data.toList :=
  toList_loop_eq s.toByteArray 0 []

theorem octetsOf_inj {s t : String} : octetsOf s = octetsOf t ↔ s = t := by
  rw [octetsOf_eq_data, octetsOf_eq_data, Array.toList_inj, ← ByteArray.ext_iff,
    String.toByteArray_inj]

theorem octetsOf_eq_flatMap (s : String) :
    octetsOf s = s.toList.flatMap String.utf8EncodeChar := by
  rw [octetsOf_eq_data, ← String.utf8Encode_toList]
  simp [List.utf8Encode]

theorem octetsOf_eq_nil_iff {s : String} : octetsOf s = [] ↔ s = "" := by
  have hempty : octetsOf "" = [] := by
    rw [octetsOf_eq_flatMap]
    rfl
  rw [← hempty, octetsOf_inj]

/-! ## ASCII characters -/

theorem utf8EncodeChar_of_ascii {c : Char} (h : c.toNat < 128) :
    String.utf8EncodeChar c = [c.toNat.toUInt8] := by
  unfold String.utf8EncodeChar
  exact if_pos (Nat.le_of_lt_succ h)

theorem mem_utf8EncodeChar_iff {c : Char} {o : UInt8} (ho : o.toNat < 128) :
    o ∈ String.utf8EncodeChar c ↔ c.toNat = o.toNat := by
  have hvalue : c.val.toNat = c.toNat := rfl
  unfold String.utf8EncodeChar
  simp only [hvalue]
  -- one octet is the number itself; two, three and four all have their highest bit set
  repeat' split
  all_goals simp [← UInt8.toNat_inj]
  all_goals omega

theorem octetsOf_ofList_of_ascii {cs : List Char} (h : ∀ c ∈ cs, c.toNat < 128) :
    octetsOf (String.ofList cs) = cs.map fun c => c.toNat.toUInt8 := by
  rw [octetsOf_eq_flatMap, String.toList_ofList]
  induction cs with
  | nil => rfl
  | cons c cs ih =>
      obtain ⟨hc, hcs⟩ := List.forall_mem_cons.1 h
      rw [List.flatMap_cons, utf8EncodeChar_of_ascii hc, ih hcs]
      rfl

theorem mem_octetsOf_iff_of_ascii {s : String} {o : UInt8} (ho : o.toNat < 128) :
    o ∈ octetsOf s ↔ ∃ c ∈ s.toList, c.toNat = o.toNat := by
  simp only [octetsOf_eq_flatMap, List.mem_flatMap, mem_utf8EncodeChar_iff ho]

end StubResolver.Text
