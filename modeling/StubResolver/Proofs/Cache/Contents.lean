import StubResolver.Proofs.Cache.History

/-!
# What a cache may hold

Whatever happens to a cache, it never holds a response with an error code.
-/

namespace StubResolver

theorem Message.responseCode_aged (m : Message) (seconds : UInt32) :
    (m.aged seconds).responseCode = m.responseCode := by
  have hdata : ∀ r, (ageRecord seconds r).data = r.data := fun r => by
    unfold ageRecord
    split <;> rfl
  have hopt : (m.aged seconds).opt? = m.opt? := by
    unfold opt? aged
    rw [List.findSome?_map]
    simp only [Function.comp_def, hdata]
  unfold responseCode
  rw [hopt]
  rfl

namespace Cache

inductive Reachable : Cache → Prop where
  | empty (config : CacheConfig) (background : Bool) (now : Instant) :
      Reachable (.empty config background now)
  | apply {c : Cache} (op : Op) (clock : Clock) (earlier : Reachable c) :
      Reachable (op.apply ⟨clock, c⟩).cache

def NoErrors (c : Cache) : Prop := ∀ entry ∈ c.entries, entry.2.response.responseCode = .noError

variable {c c' : Cache} {key : CacheKey}

theorem NoErrors.of_subset (h : c.NoErrors) (hsubset : c'.entries ⊆ c.entries) : c'.NoErrors :=
  fun entry hentry => h entry (hsubset hentry)

theorem NoErrors.put (h : c.NoErrors) (key : CacheKey) (m : Message) (now : Instant) :
    (c.put key m now).2.NoErrors := by
  intro entry hentry
  rcases (c.put_entries key m now).2 entry hentry with hold | ⟨validFor, hvalidity, rfl⟩
  · exact h entry hold
  · exact ((validity?_eq_some_iff _ _ _).1 hvalidity).noError

theorem Reachable.noErrors (h : c.Reachable) : c.NoErrors := by
  induction h with
  | empty config background now => exact fun entry hentry => nomatch hentry
  | @apply c op clock earlier ih =>
      cases op with
      | put key response => exact ih.put key response clock.now
      | get key => exact ih.of_subset (c.get_entries key clock.now).2
      | remove key => exact ih.of_subset (c.shrinks_erase key).sublist.subset
      | cleanup =>
          refine ih.of_subset ?_
          change ((c.expiredKeys clock.now).foldl erase c).entries ⊆ c.entries
          rw [foldl_erase]
          exact List.filter_subset_self _
      | advance d => exact ih
      | beginSweep => exact ih.of_subset (shrinks_beginSweep (fun _ => True) c).sublist.subset
      | finishSweep => exact ih.of_subset (c.finishSweep_entries clock.now).2
      | dropSweep => exact ih.of_subset (shrinks_dropSweep (fun _ => True) c).sublist.subset

theorem NoErrors.responseAt {e : CacheEntry} (h : c.NoErrors) (hheld : (key, e) ∈ c.entries)
    (now : Instant) : (e.responseAt now).responseCode = .noError :=
  (e.response.responseCode_aged _).trans (h _ hheld)

end Cache

end StubResolver
