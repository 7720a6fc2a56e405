import StubResolver.Proofs.Text.Escape
import StubResolver.Record.Data

/-!
# Character strings in quotes

A quote that ends a string can be told from those that are part of it, so the strings
can be read off their text one by one, whatever is in them.
-/

namespace StubResolver.RecordData

open Text

def afterString : List (List UInt8) → List Char
  | [] => []
  | ss => ' ' :: stringsChars ss

theorem stringsChars_cons (s : List UInt8) (ss : List (List UInt8)) :
    stringsChars (s :: ss) = '"' :: (escapeChars s ++ '"' :: afterString ss) := by
  cases ss <;> simp [stringsChars, afterString]

theorem stringsChars_injective {ss ss' : List (List UInt8)}
    (h : stringsChars ss = stringsChars ss') : ss = ss' := by
  -- String by string: each ends at the first quote that is not escaped.
  induction ss generalizing ss' with
  | nil =>
      cases ss' with
      | nil => rfl
      | cons s' ss' => simp [stringsChars_cons, stringsChars] at h
  | cons s ss ih =>
      cases ss' with
      | nil => simp [stringsChars_cons, stringsChars] at h
      | cons s' ss' =>
          rw [stringsChars_cons, stringsChars_cons] at h
          obtain ⟨rfl, htail⟩ := escapeChars_append_quote_inj (List.cons.inj h).2
          have hrest : ss = ss' := by
            cases ss <;> cases ss' <;> simp only [afterString] at htail
            · rfl
            · contradiction
            · contradiction
            · exact ih (List.cons.inj htail).2
          rw [hrest]

/-- Escaped octets are printable ASCII with each double quote, semicolon and
backslash in an escape sequence, and can be read back. So no two lists of character
strings have the same text. -/
theorem text_txt_unambiguous :
    (∀ os, (∀ c ∈ (escape os).toList, IsPrintable c) ∧ Escaped (escape os).toList ∧
      unescape (escape os).toList = os) ∧
    Function.Injective escape ∧ Function.Injective fun ss => (txt ss).text := by
  refine ⟨fun os => ?_, fun os os' h => ?_, fun ss ss' h => ?_⟩
  · rw [escape, String.toList_ofList]
    have hescaped := escaped_escapeChars os
    exact ⟨hescaped.isPrintable, hescaped, unescape_escapeChars os⟩
  · exact escapeChars_injective (String.ofList_inj.1 h)
  · exact stringsChars_injective (String.ofList_inj.1 h)

example :
    (txt [[], []]).text = "\"\" \"\"" ∧ (txt [[0x22, 0x20, 0x22]]).text = "\"\\\" \\\"\"" := by
  decide

end StubResolver.RecordData
