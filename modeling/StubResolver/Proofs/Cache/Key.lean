import Mathlib.Tactic.Tauto
import StubResolver.Cache.Basic
import StubResolver.Proofs.Name.Constructed
import StubResolver.Proofs.Name.Text

/-!
# What cache keys tell apart

Keys hold the text of a name, so they tell names apart by their labels in a row.
Where no label has a dot in it that is all there is to a name, and each question has
a key of its own. A label with a dot in it has the text of two labels.
-/

namespace StubResolver

open Text Name

theorem dot_mem_lowerOctets {os : List UInt8} : dot ∈ lowerOctets os ↔ dot ∈ os := by
  simp [lowerOctets, List.mem_map, lowerOctet_eq_dot]

theorem splitOn_intercalate_dot {labels : List Label} (hdot : ∀ l ∈ labels, dot ∉ l) :
    ([dot].intercalate labels).splitOn dot = if labels = [] then [[]] else labels := by
  split
  · subst labels
    rfl
  · exact List.splitOn_intercalate dot hdot ‹_›

theorem labels_of_intercalate_eq {labels labels' : List Label}
    (hdot : ∀ l ∈ labels, dot ∉ l) (hdot' : ∀ l ∈ labels', dot ∉ l)
    (hne : ∀ l ∈ labels, l ≠ []) (hne' : ∀ l ∈ labels', l ≠ [])
    (h : [dot].intercalate labels = [dot].intercalate labels') : labels = labels' := by
  have hsplit := congrArg (List.splitOn dot) h
  rw [splitOn_intercalate_dot hdot, splitOn_intercalate_dot hdot'] at hsplit
  split at hsplit <;> split at hsplit
  · simp_all
  · exact (hne' [] (by simp [← hsplit]) rfl).elim
  · exact (hne [] (by simp [hsplit]) rfl).elim
  · exact hsplit

theorem map_lowerOctets_ne_nil {labels : List Label} (hne : ∀ l ∈ labels, l ≠ []) :
    ∀ l ∈ labels.map lowerOctets, l ≠ [] := by
  simpa [lowerOctets] using hne

theorem dot_not_mem_map_lowerOctets {labels : List Label} (hdot : ∀ l ∈ labels, dot ∉ l) :
    ∀ l ∈ labels.map lowerOctets, dot ∉ l := by
  simpa [dot_mem_lowerOctets] using hdot

theorem Question.same_iff (q q' : Question) :
    q.same q' = true ↔ q.name.same q'.name = true ∧ q.type = q'.type ∧
      q.recordClass = q'.recordClass := by
  simp [same, caseFold, Name.same]

theorem Name.same_of_lowerOctets_dotted {n n' : Name} (hn : Constructed n) (hn' : Constructed n')
    (hdot : ∀ l ∈ n.labels, dot ∉ l) (hdot' : ∀ l ∈ n'.labels, dot ∉ l)
    (h : lowerOctets n.dotted = lowerOctets n'.dotted) : n.same n' = true := by
  unfold dotted at h
  rw [lowerOctets_intercalate, lowerOctets_intercalate] at h
  exact (same_iff n n').2 (labels_of_intercalate_eq (dot_not_mem_map_lowerOctets hdot)
    (dot_not_mem_map_lowerOctets hdot') (map_lowerOctets_ne_nil hn.ne_nil)
    (map_lowerOctets_ne_nil hn'.ne_nil) h)

theorem CacheKey.of_eq_of_iff (server server' : SocketAddress) (q q' : Question) :
    CacheKey.of server q = CacheKey.of server' q' ↔
      server = server' ∧ lowerOctets q.name.dotted = lowerOctets q'.name.dotted ∧
        q.type = q'.type ∧ q.recordClass = q'.recordClass := by
  simp only [CacheKey.of, CacheKey.mk.injEq, canonicalText_eq_iff]
  tauto

theorem CacheKey.of_eq_of_same {server server' : SocketAddress} {q q' : Question}
    (h : server = server' ∧ q.same q' = true) : CacheKey.of server q = CacheKey.of server' q' := by
  obtain ⟨rfl, h⟩ := h
  obtain ⟨hname, htype, hclass⟩ := (Question.same_iff q q').1 h
  exact (of_eq_of_iff _ _ _ _).2 ⟨rfl, lowerOctets_dotted_of_same hname, htype, hclass⟩

/-- Keys separate two questions exactly unless these differ in nothing but where a
row of labels has its boundaries. Equal questions have equal keys; and questions
without a dot in any label are separated. -/
theorem CacheKey.separates_iff (server server' : SocketAddress) (q q' : Question)
    (hq : Constructed q.name) (hq' : Constructed q'.name) :
    ((CacheKey.of server q = CacheKey.of server' q' ↔ server = server' ∧ q.same q' = true) ↔
      (server = server' → q.type = q'.type → q.recordClass = q'.recordClass →
        lowerOctets q.name.dotted = lowerOctets q'.name.dotted → q.name.same q'.name = true)) ∧
    (server = server' ∧ q.same q' = true → CacheKey.of server q = CacheKey.of server' q') ∧
    ((∀ l ∈ q.name.labels, dot ∉ l) → (∀ l ∈ q'.name.labels, dot ∉ l) →
      (CacheKey.of server q = CacheKey.of server' q' ↔ server = server' ∧ q.same q' = true)) := by
  have hexact : (CacheKey.of server q = CacheKey.of server' q' ↔
      server = server' ∧ q.same q' = true) ↔
      (server = server' → q.type = q'.type → q.recordClass = q'.recordClass →
        lowerOctets q.name.dotted = lowerOctets q'.name.dotted → q.name.same q'.name = true) := by
    constructor
    · intro h hserver htype hclass hdotted
      have hsame := (h.1 ((of_eq_of_iff _ _ _ _).2 ⟨hserver, hdotted, htype, hclass⟩)).2
      exact ((Question.same_iff q q').1 hsame).1
    · refine fun h => ⟨fun heq => ?_, of_eq_of_same⟩
      obtain ⟨hserver, hdotted, htype, hclass⟩ := (of_eq_of_iff _ _ _ _).1 heq
      have hname := h hserver htype hclass hdotted
      exact ⟨hserver, (Question.same_iff q q').2 ⟨hname, htype, hclass⟩⟩
  refine ⟨hexact, of_eq_of_same, fun hdot hdot' => hexact.2 fun _ _ _ hdotted => ?_⟩
  exact same_of_lowerOctets_dotted hq hq' hdot hdot' hdotted

/-- The label `\A` and the label `\a` have the same key. -/
theorem CacheKey.of_backslash_label :
    Constructed ⟨[[backslash, 0x41]]⟩ ∧ Constructed ⟨[[backslash, 0x61]]⟩ ∧
      CacheKey.of (.v4 ⟨#v[192, 0, 2, 53]⟩ 53) ⟨⟨[[backslash, 0x41]]⟩, .a, .internet⟩ =
        CacheKey.of (.v4 ⟨#v[192, 0, 2, 53]⟩ 53) ⟨⟨[[backslash, 0x61]]⟩, .a, .internet⟩ := by
  have hupper : Constructed ⟨[[backslash, 0x41]]⟩ :=
    .ofLabels (show ofLabels [[backslash, 0x41]] = _ from rfl)
  have hlower : Constructed ⟨[[backslash, 0x61]]⟩ :=
    .ofLabels (show ofLabels [[backslash, 0x61]] = _ from rfl)
  refine ⟨hupper, hlower, ?_⟩
  exact ((CacheKey.separates_iff _ _ _ _ hupper hlower).2.2 (by decide) (by decide)).2
    ⟨rfl, by decide⟩

/-- The single label `a.b` and the labels `a` and `b` are different names with the
same key, so the response to one question is found for the other. -/
theorem CacheKey.not_separates_dotted_label :
    Constructed ⟨[[0x61, dot, 0x62]]⟩ ∧ Constructed ⟨[[0x61], [0x62]]⟩ ∧
      CacheKey.of (.v4 ⟨#v[192, 0, 2, 53]⟩ 53) ⟨⟨[[0x61, dot, 0x62]]⟩, .a, .internet⟩ =
        CacheKey.of (.v4 ⟨#v[192, 0, 2, 53]⟩ 53) ⟨⟨[[0x61], [0x62]]⟩, .a, .internet⟩ ∧
      Question.same ⟨⟨[[0x61, dot, 0x62]]⟩, .a, .internet⟩ ⟨⟨[[0x61], [0x62]]⟩, .a, .internet⟩ =
        false := by
  refine ⟨.ofLabels (show ofLabels [[0x61, dot, 0x62]] = _ from rfl),
    .ofLabels (show ofLabels [[0x61], [0x62]] = _ from rfl), ?_, by decide⟩
  exact (CacheKey.of_eq_of_iff _ _ _ _).2 ⟨rfl, by decide, rfl, rfl⟩

end StubResolver
