import StubResolver.Proofs.Name.Labels
import StubResolver.Proofs.Name.Rows
import StubResolver.Proofs.Text.Utf8
import StubResolver.Proofs.Wire.Writing

/-!
# Writing host names

A host name is written from its text at once, without a name in between: the text is
cut at its dots. As long as there is no backslash in it that comes to the same as
reading a name from it and writing that, whatever is wrong with the text or with the
room for it.
-/

namespace StubResolver

open Text

namespace Name

variable {text : String}

theorem spells_hostLabels (hplain : backslash ∉ octetsOf text) (hlone : octetsOf text ≠ [dot]) :
    Spells (tokens (octetsOf text)) (Writer.hostLabels text) := by
  rw [tokens_of_plain hplain]
  by_cases hnil : octetsOf text = []
  · have hlabels : Writer.hostLabels text = [] := if_pos (.inl hnil)
    rw [hlabels, hnil]
    exact .closed rfl
  · have hlabels : Writer.hostLabels text = Writer.cutAt dot
        (if (octetsOf text).getLast? = some dot then (octetsOf text).dropLast else octetsOf text) :=
      if_neg (not_or.2 ⟨hnil, hlone⟩)
    rw [hlabels]
    by_cases hlast : (octetsOf text).getLast? = some dot
    · obtain ⟨init, hinit⟩ := List.getLast?_eq_some_iff.1 hlast
      refine .closed ?_
      rw [if_pos hlast, rowTokens_cutAt, hinit, List.dropLast_concat, List.map_append]
      rfl
    · obtain ⟨o, ho⟩ := Option.ne_none_iff_exists'.1 (mt List.getLast?_eq_none_iff.1 hnil)
      have hoctet : tokenOf o = .octet o := if_neg fun h : o = dot => hlast (h ▸ ho)
      rw [if_neg hlast]
      refine .unclosed (o := o) ?_ (rowTokens_cutAt _).symm
      rw [List.getLast?_map, ho, ← hoctet]
      rfl

theorem ofText_of_plain (hplain : backslash ∉ octetsOf text) :
    ofText text = (ofLabels (Writer.hostLabels text)).mapError .ofCompose := by
  by_cases hlone : octetsOf text = [dot]
  · have hlabels : Writer.hostLabels text = [] := if_pos (.inr hlone)
    rw [ofText, hlone, hlabels]
    rfl
  · exact ofTextOctets_of_spells hlone (spells_hostLabels hplain hlone)

inductive SameFault : NameTextError → ComposeError → Prop where
  | emptyLabel : SameFault .emptyLabel .emptyLabel
  | longLabel : SameFault .longLabel .longLabel
  | longName : SameFault .longName .longName

theorem sameFault_of_labelsError? {ls : List Label} {e : ComposeError}
    (h : labelsError? ls = some e) : SameFault (.ofCompose e) e := by
  rcases labelsError?_eq_some h with rfl | rfl | rfl
  · exact .emptyLabel
  · exact .longLabel
  · exact .longName

/-- Writing the text of a host name agrees with reading a name from it and writing
that: both append the same octets if there is room for them, and nothing if there is
not or if something is wrong with the text, which is the same for both. -/
theorem hostName_agrees_with_ofText (text : String) (hplain : '\\' ∉ text.toList) (c : Composer) :
    (∃ n, ofText text = .ok n ∧
      let os := Writer.labelOctets n.labels
      ((c.octets.size + os.length ≤ c.capacity ∧
          n.write.runOn c = (.ok (), { c with octets := c.octets ++ os }) ∧
          (Writer.hostName text).runOn c = (.ok (), { c with octets := c.octets ++ os })) ∨
        (c.capacity < c.octets.size + os.length ∧
          n.write.runOn c = (.error .shortBuffer, c) ∧
          (Writer.hostName text).runOn c = (.error .shortBuffer, c)))) ∨
    ∃ e e', ofText text = .error e ∧ SameFault e e' ∧
      (Writer.hostName text).runOn c = (.error e', c) := by
  have hplain' : backslash ∉ octetsOf text := by
    rw [mem_octetsOf_iff_of_ascii (by decide)]
    rintro ⟨o, ho, hvalue⟩
    obtain rfl : o = '\\' := Char.toNat_inj.1 hvalue
    exact hplain ho
  rw [ofText_of_plain hplain', Writer.hostName, Writer.runOn_labels, ofLabels]
  cases herror : labelsError? (Writer.hostLabels text) with
  | some e => exact .inr ⟨_, e, rfl, sameFault_of_labelsError? herror, rfl⟩
  | none =>
      refine .inl ⟨⟨Writer.hostLabels text⟩, rfl, ?_⟩
      simp only [Name.write, Writer.runOn_labels, herror]
      by_cases hroom :
        c.octets.size + (Writer.labelOctets (Writer.hostLabels text)).length ≤ c.capacity
      · exact .inl ⟨hroom, if_pos hroom, if_pos hroom⟩
      · exact .inr ⟨Nat.not_le.1 hroom, if_neg hroom, if_neg hroom⟩

/-- Empty labels at the beginning and in the middle,
and no room for anything: both report the first. -/
theorem hostName_of_doubled_dots :
    let text := ".a..b."
    let c : Composer := ⟨0, #[]⟩
    '\\' ∉ text.toList ∧ ofText text = .error .emptyLabel ∧
      (Writer.hostName text).runOn c = (.error .emptyLabel, c) := by
  intro text c
  have hplain : '\\' ∉ text.toList := by decide
  have hread : ofText ".a..b." = .error .emptyLabel := by
    rw [ofText, octetsOf_eq_flatMap]
    rfl
  refine ⟨hplain, hread, ?_⟩
  rcases hostName_agrees_with_ofText text hplain c with ⟨n, hn, -⟩ | ⟨e, e', he, hsame, hrun⟩
  · cases hread.symm.trans hn
  · obtain rfl : .emptyLabel = e := Except.error.inj (hread.symm.trans he)
    cases hsame
    exact hrun

end Name

end StubResolver
