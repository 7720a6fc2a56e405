import StubResolver.Proofs.Name.Labels
import StubResolver.Proofs.Name.Rows
import StubResolver.Proofs.Text.Utf8

/-!
# Reading back the texts of names

The text of a name gives the octets of its labels back one by one, whatever they are.
What it does not give back is a dot within a label, which looks like one between two
labels.
-/

namespace StubResolver

open Text

theorem Text.octetsOf_escape (os : List UInt8) :
    octetsOf (escape os) = (escapeChars os).map charOctet :=
  octetsOf_ofList_of_ascii fun c hc => ((escaped_escapeChars os).isPrintable c hc).toNat_lt

namespace Name

variable {n : Name} {labels : List Label}

theorem tokens_octetsOf_text (n : Name) :
    tokens (octetsOf n.text) = n.dotted.map tokenOf ++ [.dot] := by
  have htext : n.text = escape (n.dotted ++ [dot]) := by rw [text, chars_eq_escapeChars, escape]
  rw [htext, octetsOf_escape, tokens_escapeChars, List.map_append]
  rfl

theorem dotted_ne_nil (hroot : n.labels ≠ []) (hne : ∀ l ∈ n.labels, l ≠ []) : n.dotted ≠ [] := by
  intro hdotted
  have hrow := flatMap_append_dot hroot
  rw [← dotted, hdotted] at hrow
  cases hlabels : n.labels with
  | nil => exact hroot hlabels
  | cons l rest =>
      obtain ⟨o, os, hl⟩ := List.exists_cons_of_ne_nil (hne l (by simp [hlabels]))
      simp [hlabels, hl] at hrow

theorem rowTokens_of_no_dot (hdot : ∀ l ∈ labels, dot ∉ l) :
    rowTokens labels = (labels.flatMap fun l => l ++ [dot]).map tokenOf := by
  induction labels with
  | nil => rfl
  | cons l labels ih =>
      obtain ⟨hl, hlabels⟩ := List.forall_mem_cons.1 hdot
      have hoctets : l.map tokenOf = l.map .octet :=
        List.map_congr_left fun o ho => if_neg fun h : o = dot => hl (h ▸ ho)
      rw [rowTokens_cons, ih hlabels, List.flatMap_cons, List.map_append, List.map_append, hoctets,
        List.append_assoc]
      rfl

theorem dot_not_mem_cutAt (os : List UInt8) : ∀ l ∈ Writer.cutAt dot os, dot ∉ l := by
  induction os with
  | nil => simp [Writer.cutAt]
  | cons o os ih =>
      rw [Writer.cutAt]
      split
      · exact List.forall_mem_cons.2 ⟨List.not_mem_nil, ih⟩
      · rename_i ho
        cases hcut : Writer.cutAt dot os with
        | nil => simpa using Ne.symm ho
        | cons l ls =>
            rw [hcut] at ih
            obtain ⟨hl, hls⟩ := List.forall_mem_cons.1 ih
            exact List.forall_mem_cons.2 ⟨by simp [Ne.symm ho, hl], hls⟩

theorem ne_nil_of_ofLabels (hvalid : ofLabels n.labels = .ok n) : ∀ l ∈ n.labels, l ≠ [] :=
  fun l hl => List.ne_nil_of_length_pos
    ((labelsError?_eq_none_iff.1 (ofLabels_eq_ok_iff.1 hvalid).1).1 l hl).1

theorem octetsOf_text_ne_dot (hvalid : ofLabels n.labels = .ok n) (hroot : n.labels ≠ []) :
    octetsOf n.text ≠ [dot] := by
  intro hlone
  have htokens := tokens_octetsOf_text n
  rw [hlone, tokens_dot, tokens] at htokens
  exact dotted_ne_nil hroot (ne_nil_of_ofLabels hvalid) (by simpa using htokens)

theorem ofText_text_of_no_dot (hvalid : ofLabels n.labels = .ok n)
    (hdot : ∀ l ∈ n.labels, dot ∉ l) : ofText n.text = .ok n := by
  by_cases hroot : n.labels = []
  · obtain rfl : n = root := congrArg Name.mk hroot
    have htext : octetsOf root.text = [dot] := by
      rw [octetsOf_eq_flatMap]
      rfl
    rw [ofText, htext]
    rfl
  · have hrow : tokens (octetsOf n.text) = rowTokens n.labels := by
      rw [tokens_octetsOf_text, rowTokens_of_no_dot hdot, flatMap_append_dot hroot, List.map_append]
      rfl
    have hlone := octetsOf_text_ne_dot hvalid hroot
    rw [ofText, ofTextOctets_of_spells hlone (.closed hrow), hvalid]
    rfl

/-- The text of a valid name is read as that name exactly if there is no dot within
its labels. All other octets are given back as they are. -/
theorem ofText_text_iff (n : Name) (hlabels : ∀ l ∈ n.labels, 1 ≤ l.length ∧ l.length ≤ 63)
    (htotal : n.wireLength ≤ 255) :
    ofText n.text = .ok n ↔ ∀ l ∈ n.labels, dot ∉ l := by
  have hvalid : ofLabels n.labels = .ok n :=
    ofLabels_eq_ok_iff.2 ⟨labelsError?_eq_none_iff.2 ⟨hlabels, htotal⟩, rfl⟩
  refine ⟨fun h => ?_, ofText_text_of_no_dot hvalid⟩
  by_cases hroot : n.labels = []
  · simp [hroot]
  · -- what is read are the pieces between the dots
    have hlone := octetsOf_text_ne_dot hvalid hroot
    have hcut := ofLabels_of_ofTextOctets hlone
      (.closed ((tokens_octetsOf_text n).trans (rowTokens_cutAt _).symm)) h
    rw [(ofLabels_eq_ok_iff.1 hcut).2]
    exact dot_not_mem_cutAt n.dotted

/-- Two labels full of what the text has to escape, or might be taken to have
escaped: `\123"; ` and the octets 0, 127, 195 and 255. -/
theorem ofText_text_of_awkward_labels :
    let n : Name := ⟨[[backslash, 0x31, 0x32, 0x33, 0x22, 0x3B, 0x20], [0, 0x7F, 0xC3, 0xFF]]⟩
    (∀ l ∈ n.labels, 1 ≤ l.length ∧ l.length ≤ 63) ∧ n.wireLength ≤ 255 ∧
      n.text = "\\\\123\\\"\\; .\\000\\127\\195\\255." ∧ ofText n.text = .ok n := by
  intro n
  have hlabels : ∀ l ∈ n.labels, 1 ≤ l.length ∧ l.length ≤ 63 := by decide
  have htotal : n.wireLength ≤ 255 := by decide
  exact ⟨hlabels, htotal, by decide, (ofText_text_iff n hlabels htotal).2 (by decide)⟩

end Name

end StubResolver
