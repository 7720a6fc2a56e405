import StubResolver.Cache.Basic
import StubResolver.Proofs.Message.Aging

/-!
# How long a response may be kept

What may be kept, and for how long, is said here by the records of the response,
without the order in which the cache checks.
-/

namespace StubResolver

theorem CacheEntry.responseAt_eq_after (e : CacheEntry) (now : Instant) :
    e.responseAt now = e.response.after (now - e.storedAt).seconds := by
  apply Message.aged_eq_after
  have hfits : min (e.age now).seconds 0xFFFFFFFF < UInt32.size :=
    Nat.lt_of_le_of_lt (Nat.min_le_right _ _) (by decide)
  exact UInt32.toNat_ofNat_of_lt' hfits

/-! ## Validity -/

structure Message.LeastTtl (m : Message) (ttl : Int) : Prop where
  met : ∃ r ∈ m.records, r.ttl.toInt = ttl
  least : ∀ r ∈ m.records, ttl ≤ r.ttl.toInt

/-- A time to live in seconds, which counts as zero below zero, is raised to the time
given. The infinite minimum stands for as many milliseconds as 31 bits count. -/
def RaisedTo (minimum : Option MinimumTtl) (ttl : Int) (v : Duration) : Prop :=
  match minimum with
  | none => v = .ofSeconds ttl.toNat
  | some (.duration d) => v = max (.ofSeconds ttl.toNat) d
  | some .infinite => v = .ofMillis 0x7FFFFFFF

structure Validity (config : CacheConfig) (m : Message) (v : Duration) : Prop where
  noError : m.responseCode = .noError
  whole : m.isTruncated = false
  time : ∃ ttl, m.LeastTtl ttl ∧ RaisedTo config.minimumTtl ttl v
  aSecond : .ofSeconds 1 ≤ v

theorem Message.minTtl?_eq_some_iff (m : Message) (ttl : Int) :
    m.minTtl? = some ttl ↔ m.LeastTtl ttl := by
  unfold minTtl?
  rw [List.min?_eq_some_iff]
  simp only [List.mem_map, forall_exists_index, and_imp, forall_apply_eq_imp_iff₂]
  exact ⟨fun h => ⟨h.1, h.2⟩, fun h => ⟨h.met, h.least⟩⟩

theorem Message.hasError_iff (m : Message) : m.hasError = true ↔ m.responseCode ≠ .noError :=
  ResponseCode.isError_iff

theorem raiseToMinimum_eq_iff (minimum : Option MinimumTtl) (ttl : Int) (v : Duration) :
    raiseToMinimum minimum (.ofSeconds ttl.toNat) = v ↔ RaisedTo minimum ttl v := by
  cases minimum with
  | none => exact eq_comm
  | some minimum => cases minimum <;> exact eq_comm

theorem validity?_eq_some_iff (config : CacheConfig) (m : Message) (v : Duration) :
    validity? config m = some v ↔ Validity config m v := by
  constructor
  · intro h
    unfold validity? at h
    split at h
    · contradiction
    · rename_i hclean
      rw [Bool.or_eq_true, not_or, Message.hasError_iff, Decidable.not_not,
        Bool.not_eq_true] at hclean
      split at h
      · contradiction
      · rename_i ttl httl
        dsimp only at h
        split at h
        · contradiction
        · rename_i hlong
          have hv := Option.some.inj h
          have htime := (raiseToMinimum_eq_iff _ _ _).1 hv
          rw [hv] at hlong
          exact ⟨hclean.1, hclean.2, ⟨ttl, (m.minTtl?_eq_some_iff ttl).1 httl, htime⟩,
            Nat.le_of_not_lt hlong⟩
  · rintro ⟨hcode, hwhole, ⟨ttl, httl, htime⟩, hlong⟩
    have herror : m.hasError = false := ResponseCode.isError_eq_false_iff.2 hcode
    have hv := (raiseToMinimum_eq_iff _ _ _).2 htime
    have hshort : ¬ v < leastValidity := Nat.not_lt_of_le hlong
    unfold validity?
    simp [herror, hwhole, (m.minTtl?_eq_some_iff ttl).2 httl, hv, hshort]

theorem Validity.unique {config : CacheConfig} {m : Message} {v v' : Duration}
    (h : Validity config m v) (h' : Validity config m v') : v = v' := by
  rw [← validity?_eq_some_iff] at h h'
  exact Option.some.inj (h.symm.trans h')

theorem Validity.lt_ttl {config : CacheConfig} {m : Message} {v elapsed : Duration}
    (h : Validity config m v) (hminimum : config.minimumTtl = none) (hfresh : elapsed < v) :
    (∃ r, r ∈ m.records) ∧ ∀ r ∈ m.records, elapsed.seconds < r.ttl.toInt := by
  obtain ⟨ttl, httl, htime⟩ := h.time
  rw [hminimum] at htime
  have hseconds : elapsed.seconds < ttl.toNat := by
    unfold RaisedTo at htime
    rw [htime] at hfresh
    exact Nat.div_lt_of_lt_mul (Nat.mul_comm _ _ ▸ hfresh)
  obtain ⟨r, hr, -⟩ := httl.met
  refine ⟨⟨r, hr⟩, fun r hr => ?_⟩
  have hleast := httl.least r hr
  omega

theorem Cache.put_of_validity {c : Cache} {m : Message} {v : Duration}
    (h : Validity c.config m v) (key : CacheKey) (now : Instant) :
    c.put key m now = (true, (c.insert key ⟨now, v, m⟩).startSweepIfDue now) := by
  unfold put
  rw [(validity?_eq_some_iff _ _ _).2 h]

theorem Cache.put_of_not_validity {c : Cache} {m : Message} (h : ∀ v, ¬ Validity c.config m v)
    (key : CacheKey) (now : Instant) : c.put key m now = (false, c) := by
  have hnone : validity? c.config m = none := by
    cases hv : validity? c.config m with
    | none => rfl
    | some v => exact (h v ((validity?_eq_some_iff _ _ _).1 hv)).elim
  unfold put
  rw [hnone]

theorem Cache.put_eq_true_iff (c : Cache) (key : CacheKey) (m : Message) (now : Instant) :
    (c.put key m now).1 = true ↔ ∃ v, Validity c.config m v := by
  by_cases h : ∃ v, Validity c.config m v
  · obtain ⟨v, hv⟩ := h
    simp [put_of_validity hv, Exists.intro v hv]
  · simp [put_of_not_validity (not_exists.1 h), h]

end StubResolver
