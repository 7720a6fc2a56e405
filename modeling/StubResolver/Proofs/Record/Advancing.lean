import StubResolver.Proofs.Name.Placement
import StubResolver.Proofs.Record.Decoders

/-!
# Decoders that only move forward

A decoder may read anywhere in the message, but when it is done it should stand where
it began or further on. The standard decoders do.
-/

namespace StubResolver

/-- The decoder only moves forward, by a number of octets that a word can count. -/
def Decoder.AdvancesIn (m : Octets) (decoder : Decoder) : Prop :=
  ∀ header pos data next, decoder header m pos = .ok data next →
    ∃ count : UInt64, next = pos + count.toNat

def Registry.AdvancesIn (m : Octets) (r : Registry) : Prop :=
  ∀ entry ∈ r.decoders, entry.2.AdvancesIn m

namespace Reader

/-- The read only moves forward, and not from within the message out of it. -/
def MovesForward {α : Type} (m : Octets) (reader : Reader α) : Prop :=
  ∀ pos a next, reader m pos = .ok a next → pos ≤ next ∧ next ≤ max pos m.size

variable {α β : Type} {m : Octets}

theorem MovesForward.bind {x : Reader α} {f : α → Reader β} (hx : x.MovesForward m)
    (hf : ∀ a, (f a).MovesForward m) : (x >>= f).MovesForward m := by
  intro pos b next h
  obtain ⟨a, mid, hx', hf'⟩ := bind_eq_ok_iff.1 h
  have hfirst := hx _ _ _ hx'
  have hrest := hf a _ _ _ hf'
  omega

theorem compositional_movesForward (m : Octets) :
    Compositional fun _ reader => reader.MovesForward m where
  pure a := by
    intro pos b next h
    obtain ⟨-, rfl⟩ := pure_eq_ok_iff.1 h
    omega
  bind := MovesForward.bind

theorem movesForward_fixed (count : Nat) : (fixed count).MovesForward m := by
  intro pos v next h
  obtain ⟨-, hle, rfl⟩ := fixed_eq_ok_iff.1 h
  omega

theorem movesForward_take (count : Nat) : (take count).MovesForward m := by
  intro pos os next h
  obtain ⟨-, -, hle, rfl⟩ := take_eq_ok_iff.1 h
  omega

theorem movesForward_position : position.MovesForward m := by
  intro pos v next h
  obtain ⟨-, rfl⟩ := position_eq_ok_iff.1 h
  omega

theorem movesForward_name : Name.read.MovesForward m := by
  intro pos n next h
  have hbounds := (Name.read_eq_ok_iff.1 h).bounds
  omega

theorem movesForward_stringsUpTo (stop : Nat) (done : List (List UInt8)) :
    MovesForward m (RecordData.stringsUpTo stop done) := by
  intro pos strings next h
  fun_induction RecordData.stringsUpTo stop done m pos with
  | case1 done pos hend =>
      obtain ⟨-, rfl⟩ := EStateM.Result.ok.inj h
      omega
  | case2 | case3 | case5 => cases h
  | case4 done pos hgoesOn length hlength start hwithin hroom ih =>
      have hrest := ih h
      omega

end Reader

open Reader

variable {m : Octets}

theorem Decoder.advancesIn_of_movesForward {decoder : Decoder} (hsize : m.size < UInt64.size)
    (h : ∀ header, (decoder header).MovesForward m) : decoder.AdvancesIn m := by
  intro header pos data next hread
  have hforward := h header _ _ _ hread
  refine ⟨(next - pos).toUInt64, ?_⟩
  rw [UInt64.toNat_ofNat_of_lt' (by omega)]
  omega

theorem Registry.standard_movesForward (m : Octets) :
    ∀ entry ∈ standard.decoders, ∀ header, (entry.2 header).MovesForward m :=
  (compositional_movesForward m).standard movesForward_fixed movesForward_name movesForward_take
    movesForward_position movesForward_stringsUpTo

theorem Registry.standard_decoderFor_movesForward (m : Octets) (type : RecordType)
    (header : RecordHeader) : (standard.decoderFor type header).MovesForward m := by
  have hunknown : ∀ header, (RecordData.readUnknown header).MovesForward m := fun header =>
    (compositional_movesForward m).map (movesForward_take _) _
  exact decoderFor_of_forall (P := fun decoder => ∀ header, (decoder header).MovesForward m)
    (standard_movesForward m) hunknown type header

theorem Registry.standard_advancesIn (hsize : m.size < UInt64.size) : standard.AdvancesIn m :=
  fun entry hentry =>
    Decoder.advancesIn_of_movesForward hsize (standard_movesForward m entry hentry)

end StubResolver
