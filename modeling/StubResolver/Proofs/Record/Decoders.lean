import StubResolver.Record.Registry

/-!
# What decoders are put together from

A property that passes from reads to sequences of them holds of the standard decoders
as soon as it holds of the few reads that these are put together from. A property of
all decoders of a registry holds of the one for a given type.
-/

namespace StubResolver

/-- The property passes from reads to what is put together from them. -/
structure Reader.Compositional (P : (α : Type) → Reader α → Prop) : Prop where
  pure {α : Type} (a : α) : P α (pure a)
  bind {α β : Type} {x : Reader α} {f : α → Reader β} :
    P α x → (∀ a, P β (f a)) → P β (x >>= f)

namespace Reader.Compositional

variable {P : (α : Type) → Reader α → Prop} (h : Compositional P)

include h

theorem map {α β : Type} {x : Reader α} (hx : P α x) (f : α → β) : P β (f <$> x) :=
  h.bind hx fun a => h.pure (f a)

variable (hfixed : ∀ count, P _ (fixed count))

include hfixed

theorem u16 : P _ Reader.u16 := h.bind (hfixed 2) fun _ => h.pure _

theorem u32 : P _ Reader.u32 := h.bind (hfixed 4) fun _ => h.pure _

theorem ip4 : P _ Reader.ip4 := h.bind (hfixed 4) fun _ => h.pure _

theorem ip6 : P _ Reader.ip6 := h.bind (hfixed 16) fun _ => h.pure _

variable (hname : P _ Name.read)

include hname

theorem recordHeader : P _ RecordHeader.read :=
  h.bind hname fun _ =>
  h.bind (h.bind (h.u16 hfixed) fun _ => h.pure _) fun _ =>
  h.bind (h.bind (h.u16 hfixed) fun _ => h.pure _) fun _ =>
  h.bind (h.bind (h.u32 hfixed) fun _ => h.pure _) fun _ =>
  h.bind (h.u16 hfixed) fun _ => h.pure _

theorem soa : P _ Soa.read :=
  h.bind hname fun _ => h.bind hname fun _ =>
  h.bind (h.u32 hfixed) fun _ => h.bind (h.u32 hfixed) fun _ => h.bind (h.u32 hfixed) fun _ =>
  h.bind (h.u32 hfixed) fun _ => h.bind (h.u32 hfixed) fun _ => h.pure _

variable (htake : ∀ count, P _ (take count)) (hposition : P _ position)
  (hstrings : ∀ stop done, P _ (RecordData.stringsUpTo stop done))

include htake hposition hstrings

theorem standard : ∀ entry ∈ Registry.standard.decoders, ∀ header, P _ (entry.2 header) := by
  intro entry hentry header
  simp only [Registry.standard, List.mem_cons, List.not_mem_nil, or_false] at hentry
  rcases hentry with rfl | rfl | rfl | rfl | rfl | rfl | rfl | rfl | rfl
  · exact h.map (h.ip4 hfixed) _
  · exact h.map hname _
  · exact h.map hname _
  · exact h.map (h.soa hfixed hname) _
  · exact h.map hname _
  · exact h.bind (h.u16 hfixed) fun _ => h.bind hname fun _ => h.pure _
  · exact h.bind hposition fun _ => h.bind (hstrings _ _) fun _ => h.pure _
  · exact h.map (h.ip6 hfixed) _
  · exact h.map (h.bind (htake _) fun _ => h.pure _) _

end Reader.Compositional

/-! ## The decoder for a type -/

namespace Registry

variable {r : Registry} {type : RecordType}

theorem mem_of_find? {decoder : Decoder} (hfind : r.find? type = some decoder) :
    (type, decoder) ∈ r.decoders := by
  unfold Registry.find? at hfind
  obtain ⟨entry, hentry, rfl⟩ := Option.map_eq_some_iff.1 hfind
  have htype : entry.1 = type := by simpa using List.find?_some hentry
  exact htype ▸ List.mem_of_find?_eq_some hentry

theorem decoderFor_of_forall {P : Decoder → Prop} (hdecoders : ∀ entry ∈ r.decoders, P entry.2)
    (hunknown : P RecordData.readUnknown) (type : RecordType) : P (r.decoderFor type) := by
  unfold Registry.decoderFor
  cases hfind : r.find? type with
  | none => exact hunknown
  | some decoder => exact hdecoders _ (mem_of_find? hfind)

end Registry

end StubResolver
