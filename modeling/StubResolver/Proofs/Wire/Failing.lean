import StubResolver.Proofs.Name.Placement
import StubResolver.Proofs.Record.Decoders

/-!
# What reads fail with

A read that wants more octets than there are ahead fails for want of them, and stays
where it is. A name may be malformed instead. No read takes it for a decoder's fault
that the octets are not as it wants them.
-/

namespace StubResolver

namespace Reader

variable {α β : Type} {m : Octets} {pos stop count : Nat} {e : ParseError}

/-! ## Sequences of reads -/

theorem pure_ne_error (a : α) : (pure a : Reader α) m pos ≠ .error e stop := nofun

theorem bind_of_ok {x : Reader α} {f : α → Reader β} {a : α} {mid : Nat}
    (h : x m pos = .ok a mid) : (x >>= f) m pos = f a m mid := by
  change EStateM.bind (x m) (fun a => f a m) pos = _
  rw [EStateM.bind, h]

theorem bind_eq_error_iff {x : Reader α} {f : α → Reader β} :
    (x >>= f) m pos = .error e stop ↔
      x m pos = .error e stop ∨ ∃ a mid, x m pos = .ok a mid ∧ f a m mid = .error e stop := by
  change EStateM.bind (x m) (fun a => f a m) pos = _ ↔ _
  unfold EStateM.bind
  cases x m pos with
  | ok a mid =>
      constructor
      · intro h
        exact .inr ⟨a, mid, rfl, h⟩
      · rintro (h | ⟨_, _, ⟨⟩, h⟩)
        · cases h
        · exact h
  | error e' mid => simp

/-! ## Single reads -/

theorem position_ne_error : position m pos ≠ .error e stop := nofun

theorem ahead_eq_error_iff {taken : EStateM.Result ParseError Nat α}
    (htaken : taken ≠ .error e stop) :
    (if pos + count ≤ m.size then taken else .error .shortInput pos) = .error e stop ↔
      m.size < pos + count ∧ e = .shortInput ∧ stop = pos := by
  split
  · simp [htaken]
    omega
  · rename_i hshort
    simp [Nat.not_le.1 hshort, eq_comm]

theorem require_eq_error_iff :
    require count m pos = .error e stop ↔ m.size < pos + count ∧ e = .shortInput ∧ stop = pos :=
  ahead_eq_error_iff nofun

theorem take_eq_error_iff :
    take count m pos = .error e stop ↔ m.size < pos + count ∧ e = .shortInput ∧ stop = pos :=
  ahead_eq_error_iff nofun

theorem fixed_eq_error_iff :
    fixed count m pos = .error e stop ↔ m.size < pos + count ∧ e = .shortInput ∧ stop = pos := by
  rw [← take_eq_error_iff]
  unfold fixed take
  split <;> simp

theorem runAt_eq_error_iff {reader : Reader α} :
    reader.runAt m pos = (.error e, stop) ↔ reader m pos = .error e stop := by
  unfold runAt
  cases reader m pos <;> simp

end Reader

theorem Name.read_eq_error {m : Octets} {pos stop : Nat} {e : ParseError}
    (h : Name.read m pos = .error e stop) :
    stop = pos ∧ (e = .shortInput ∨ ∃ fault, e = .malformedName fault) := by
  obtain ⟨r, hreads, hrun⟩ := Name.read_runAt m pos
  rw [← Reader.runAt_eq_error_iff, hrun] at h
  cases hreads with
  | root walk few root => simp [Name.leaves] at h
  | runsOut walk few runsOut =>
      obtain ⟨rfl, rfl⟩ : ParseError.shortInput = e ∧ pos = stop := by simpa [Name.leaves] using h
      exact ⟨rfl, .inl rfl⟩
  | reserved fault | tooMany fault | neverEnds fault =>
      obtain ⟨rfl, rfl⟩ : .malformedName fault = e ∧ pos = stop := by simpa [Name.leaves] using h
      exact ⟨rfl, .inr ⟨fault, rfl⟩⟩

/-! ## Whose fault it is -/

/-- The octets are at fault, and not a decoder of theirs. -/
def ParseError.BlamesOctets : ParseError → Prop
  | .desync .. => False
  | _ => True

namespace Reader

def BlamesOctets {α : Type} (m : Octets) (reader : Reader α) : Prop :=
  ∀ pos e stop, reader m pos = .error e stop → e.BlamesOctets

variable {α β : Type} {m : Octets}

theorem BlamesOctets.bind {x : Reader α} {f : α → Reader β} (hx : x.BlamesOctets m)
    (hf : ∀ a, (f a).BlamesOctets m) : (x >>= f).BlamesOctets m := by
  intro pos e stop h
  rcases bind_eq_error_iff.1 h with hx' | ⟨a, mid, -, hf'⟩
  · exact hx _ _ _ hx'
  · exact hf a _ _ _ hf'

theorem compositional_blamesOctets (m : Octets) :
    Compositional fun _ reader => reader.BlamesOctets m where
  pure a := fun _ _ _ h => (pure_ne_error a h).elim
  bind := BlamesOctets.bind

theorem blamesOctets_position : position.BlamesOctets m :=
  fun _ _ _ h => (position_ne_error h).elim

theorem blamesOctets_fixed (count : Nat) : (fixed count).BlamesOctets m := by
  intro pos e stop h
  obtain ⟨-, rfl, -⟩ := fixed_eq_error_iff.1 h
  trivial

theorem blamesOctets_take (count : Nat) : (take count).BlamesOctets m := by
  intro pos e stop h
  obtain ⟨-, rfl, -⟩ := take_eq_error_iff.1 h
  trivial

theorem blamesOctets_name : Name.read.BlamesOctets m := by
  intro pos e stop h
  obtain ⟨-, rfl | ⟨fault, rfl⟩⟩ := Name.read_eq_error h <;> trivial

theorem blamesOctets_stringsUpTo (last : Nat) (done : List (List UInt8)) :
    BlamesOctets m (RecordData.stringsUpTo last done) := by
  intro pos e stop h
  fun_induction RecordData.stringsUpTo last done m pos with
  | case1 => cases h
  | case2 | case3 | case5 =>
      obtain ⟨rfl, -⟩ := EStateM.Result.error.inj h
      trivial
  | case4 done pos hgoesOn length hlength start hwithin hroom ih => exact ih h

theorem blamesOctets_recordHeader : RecordHeader.read.BlamesOctets m :=
  (compositional_blamesOctets m).recordHeader blamesOctets_fixed blamesOctets_name

end Reader

theorem Registry.standard_blamesOctets (m : Octets) (type : RecordType) (header : RecordHeader) :
    (standard.decoderFor type header).BlamesOctets m := by
  have hstandard := (Reader.compositional_blamesOctets m).standard Reader.blamesOctets_fixed
    Reader.blamesOctets_name Reader.blamesOctets_take Reader.blamesOctets_position
    Reader.blamesOctets_stringsUpTo
  have hunknown : ∀ header, (RecordData.readUnknown header).BlamesOctets m := fun header =>
    (Reader.compositional_blamesOctets m).map (Reader.blamesOctets_take _) _
  exact decoderFor_of_forall (P := fun decoder => ∀ header, (decoder header).BlamesOctets m)
    hstandard hunknown type header

end StubResolver
