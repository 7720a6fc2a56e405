import Mathlib.Data.List.Induction
import StubResolver.Proofs.Cache.Entries
import StubResolver.Proofs.Cache.Validity

/-!
# The cache and its history

What a look-up finds is told by the calls made so far and their times alone: by the
latest entry put under the key, unless it has been removed or has run out since.
Entries that have expired may be in the cache or not, which no look-up shows.
-/

namespace StubResolver.Cache

/-! ## Runs -/

inductive Op where
  | put (key : CacheKey) (response : Message)
  | get (key : CacheKey)
  | remove (key : CacheKey)
  | cleanup
  | advance (d : Duration)
  | beginSweep
  | finishSweep
  | dropSweep

structure Timed where
  clock : Clock
  cache : Cache

def Op.apply (op : Op) (s : Timed) : Timed :=
  match op with
  | .put key response => { s with cache := (s.cache.put key response s.clock.now).2 }
  | .get key => { s with cache := (s.cache.get key s.clock.now).2 }
  | .remove key => { s with cache := s.cache.erase key }
  | .cleanup => { s with cache := (s.cache.cleanup s.clock.now).2 }
  | .advance d => { s with clock := s.clock.advance d }
  | .beginSweep => { s with cache := s.cache.beginSweep }
  | .finishSweep => { s with cache := s.cache.finishSweep s.clock.now }
  | .dropSweep => { s with cache := s.cache.dropSweep }

def run (config : CacheConfig) (background : Bool) (start : Clock) (ops : List Op) : Timed :=
  ops.foldl (fun s op => op.apply s) ⟨start, .empty config background start.now⟩

theorem run_concat (config : CacheConfig) (background : Bool) (start : Clock) (ops : List Op)
    (op : Op) : run config background start (ops ++ [op]) =
      op.apply (run config background start ops) := by
  unfold run
  rw [List.foldl_append]
  rfl

/-! ## What the calls tell -/

def Op.key? : Op → Option CacheKey
  | .put key _ | .get key | .remove key => some key
  | _ => none

def UsesAtMost (count : Nat) (ops : List Op) : Prop :=
  ∃ keys : List CacheKey, keys.length ≤ count ∧ ∀ op ∈ ops, ∀ key, op.key? = some key → key ∈ keys

def clockAfter (start : Clock) (ops : List Op) : Clock :=
  ops.foldl (fun clock op => match op with | .advance d => clock.advance d | _ => clock) start

/-- What was put under the key before does not count any more. -/
def Op.Supersedes (config : CacheConfig) (key : CacheKey) (op : Op) : Prop :=
  op = .remove key ∨ ∃ m v, op = .put key m ∧ Validity config m v

/-- The entry was put under the key, and nothing has superseded it since. -/
def LatestPut (config : CacheConfig) (start : Clock) (ops : List Op) (key : CacheKey)
    (e : CacheEntry) : Prop :=
  ∃ before after, ops = before ++ .put key e.response :: after ∧
    Validity config e.response e.validFor ∧ e.storedAt = (clockAfter start before).now ∧
    ∀ op ∈ after, ¬ op.Supersedes config key

section

variable {config : CacheConfig} {start : Clock} {ops : List Op} {op : Op} {key : CacheKey}
  {e : CacheEntry}

namespace Op

@[simp] theorem supersedes_put_iff {key' : CacheKey} {m : Message} :
    (put key' m).Supersedes config key ↔ key' = key ∧ ∃ v, Validity config m v := by
  constructor
  · rintro (heq | ⟨m', v, heq, hvalid⟩)
    · cases heq
    · obtain ⟨rfl, rfl⟩ := put.inj heq
      exact ⟨rfl, v, hvalid⟩
  · rintro ⟨rfl, v, hvalid⟩
    exact .inr ⟨m, v, rfl, hvalid⟩

@[simp] theorem supersedes_remove_iff {key' : CacheKey} :
    (remove key').Supersedes config key ↔ key' = key := by
  simp [Supersedes]

@[simp] theorem not_supersedes_advance (d : Duration) :
    ¬ (advance d).Supersedes config key := by
  simp [Supersedes]

end Op

theorem not_latestPut_nil : ¬ LatestPut config start [] key e := by
  rintro ⟨before, after, hops, -⟩
  simp at hops

theorem LatestPut.concat (h : LatestPut config start ops key e)
    (hop : ¬ op.Supersedes config key) : LatestPut config start (ops ++ [op]) key e := by
  obtain ⟨before, after, rfl, hvalid, htime, hafter⟩ := h
  refine ⟨before, after ++ [op], by simp, hvalid, htime, fun op' hop' => ?_⟩
  rcases List.mem_append.1 hop' with hop' | hop'
  · exact hafter op' hop'
  · rwa [List.mem_singleton.1 hop']

theorem latestPut_put {m : Message} {v : Duration} (h : Validity config m v) :
    LatestPut config start (ops ++ [.put key m]) key ⟨(clockAfter start ops).now, v, m⟩ :=
  ⟨ops, [], rfl, h, rfl, by simp⟩

theorem LatestPut.of_concat (h : LatestPut config start (ops ++ [op]) key e) :
    (op = .put key e.response ∧ Validity config e.response e.validFor ∧
        e.storedAt = (clockAfter start ops).now) ∨
      (LatestPut config start ops key e ∧ ¬ op.Supersedes config key) := by
  obtain ⟨before, after, hops, hvalid, htime, hafter⟩ := h
  rcases List.eq_nil_or_concat' after with rfl | ⟨after, last, rfl⟩
  · obtain ⟨rfl, hop⟩ := List.append_inj' hops rfl
    exact .inl ⟨(List.cons.inj hop).1, hvalid, htime⟩
  · rw [← List.cons_append, ← List.append_assoc] at hops
    obtain ⟨rfl, hop⟩ := List.append_inj' hops rfl
    obtain rfl := (List.cons.inj hop).1
    refine .inr ⟨⟨before, after, rfl, hvalid, htime, fun op' hop' => ?_⟩, ?_⟩
    · exact hafter op' (List.mem_append_left _ hop')
    · exact hafter op (by simp)

theorem LatestPut.put_mem (h : LatestPut config start ops key e) :
    Op.put key e.response ∈ ops := by
  obtain ⟨before, after, rfl, -⟩ := h
  simp

theorem LatestPut.unique {e' : CacheEntry} (h : LatestPut config start ops key e)
    (h' : LatestPut config start ops key e') : e = e' := by
  induction ops using List.reverseRecOn with
  | nil => exact (not_latestPut_nil h).elim
  | append_singleton ops op ih =>
      rcases h.of_concat with ⟨rfl, hvalid, htime⟩ | ⟨h, hop⟩ <;>
        rcases h'.of_concat with ⟨heq, hvalid', htime'⟩ | ⟨h', hop'⟩
      · have hresponse := (Op.put.inj heq).2
        rw [← hresponse] at hvalid'
        have hvalidFor := hvalid.unique hvalid'
        have hstored := htime.trans htime'.symm
        cases e
        cases e'
        simp_all
      · exact (hop' (.inr ⟨_, _, rfl, hvalid⟩)).elim
      · exact (hop (.inr ⟨_, _, heq, hvalid'⟩)).elim
      · exact ih h h'

end

/-! ## The cache after a run -/

/-- The cache has entries as its history tells, but for some that have expired. -/
structure Faithful (config : CacheConfig) (start : Clock) (ops : List Op) (s : Timed) : Prop where
  clock : s.clock = clockAfter start ops
  inRange : s.clock.now ≤ Duration.longest
  settings : s.cache.config = config
  distinct : s.cache.KeysDistinct
  sound : ∀ key e, (key, e) ∈ s.cache.entries → LatestPut config start ops key e
  complete : ∀ key e, LatestPut config start ops key e →
    (key, e) ∈ s.cache.entries ∨ ExpiredAt s.clock.now (key, e)

section

variable {config : CacheConfig} {start : Clock} {ops : List Op} {s : Timed}

theorem faithful_nil (background : Bool) (hstart : start.now ≤ Duration.longest) :
    Faithful config start [] (run config background start []) where
  clock := rfl
  inRange := hstart
  settings := rfl
  distinct := List.nodup_nil
  sound := by simp [run, empty]
  complete := fun _ _ h => (not_latestPut_nil h).elim

theorem clockAfter_concat (op : Op) :
    clockAfter start (ops ++ [op]) =
      match op with
      | .advance d => (clockAfter start ops).advance d
      | _ => clockAfter start ops := by
  unfold clockAfter
  rw [List.foldl_append]
  cases op <;> rfl

theorem Faithful.shrink (h : Faithful config start ops s) {op : Op} {c' : Cache}
    (hshrinks : Shrinks (ExpiredAt s.clock.now) s.cache c')
    (hclock : clockAfter start (ops ++ [op]) = clockAfter start ops)
    (hop : ∀ key, ¬ op.Supersedes config key) :
    Faithful config start (ops ++ [op]) { s with cache := c' } where
  clock := h.clock.trans hclock.symm
  inRange := h.inRange
  settings := hshrinks.config.trans h.settings
  distinct := hshrinks.keysDistinct h.distinct
  sound := by
    intro key e hmem
    exact (h.sound key e (hshrinks.sublist.subset hmem)).concat (hop key)
  complete := by
    intro key e hlatest
    rcases hlatest.of_concat with ⟨rfl, hvalid, -⟩ | ⟨hlatest, -⟩
    · exact (hop key (.inr ⟨_, _, rfl, hvalid⟩)).elim
    · -- An entry that has not expired was there before, and is kept.
      by_cases hexpired : ExpiredAt s.clock.now (key, e)
      · exact .inr hexpired
      · rcases h.complete key e hlatest with hmem | hmem
        · exact .inl (hshrinks.kept _ hmem hexpired)
        · exact (hexpired hmem).elim

theorem Faithful.remove (h : Faithful config start ops s) (key : CacheKey) :
    Faithful config start (ops ++ [.remove key]) { s with cache := s.cache.erase key } where
  clock := by rw [clockAfter_concat, h.clock]
  inRange := h.inRange
  settings := h.settings
  distinct := (s.cache.shrinks_erase key).keysDistinct h.distinct
  sound := by
    intro key' e hmem
    obtain ⟨hmem, hne⟩ := mem_erase.1 hmem
    exact (h.sound key' e hmem).concat fun hop => hne (Op.supersedes_remove_iff.1 hop).symm
  complete := by
    intro key' e hlatest
    rcases hlatest.of_concat with ⟨heq, -⟩ | ⟨hlatest, hop⟩
    · cases heq
    · have hne : key' ≠ key := fun heq => hop (Op.supersedes_remove_iff.2 heq.symm)
      exact (h.complete key' e hlatest).imp (fun hmem => mem_erase.2 ⟨hmem, hne⟩) id

theorem Faithful.advance (h : Faithful config start ops s) (d : Duration) :
    Faithful config start (ops ++ [.advance d]) { s with clock := s.clock.advance d } where
  clock := by rw [clockAfter_concat, h.clock]
  inRange := s.clock.advance_le_longest d
  settings := h.settings
  distinct := h.distinct
  sound := by
    intro key e hmem
    exact (h.sound key e hmem).concat (Op.not_supersedes_advance d)
  complete := by
    intro key e hlatest
    rcases hlatest.of_concat with ⟨heq, -⟩ | ⟨hlatest, -⟩
    · cases heq
    · have hlater := Clock.now_le_advance h.inRange d
      exact (h.complete key e hlatest).imp id fun hexpired => hexpired.mono hlater

theorem Faithful.room (h : Faithful config start ops s) {key : CacheKey} {m : Message}
    (hkeys : UsesAtMost config.maxEntries (ops ++ [.put key m])) :
    (s.cache.erase key).entries.length < s.cache.config.maxEntries := by
  obtain ⟨keys, hlength, hkeys⟩ := hkeys
  rw [← h.settings] at hlength
  refine h.distinct.room hlength (hkeys (.put key m) (by simp) key rfl) fun entry hentry => ?_
  have hput := (h.sound entry.1 entry.2 hentry).put_mem
  exact hkeys _ (List.mem_append_left _ hput) _ rfl

theorem Faithful.put (h : Faithful config start ops s) {key : CacheKey} {m : Message}
    {v : Duration} (hvalid : Validity config m v)
    (hkeys : UsesAtMost config.maxEntries (ops ++ [.put key m])) :
    Faithful config start (ops ++ [.put key m])
      { s with cache := (s.cache.put key m s.clock.now).2 } := by
  rw [← h.settings] at hvalid
  have hput := put_of_validity hvalid key s.clock.now
  rw [entries_insert_of_room (h.room hkeys)] at hput
  rw [h.settings] at hvalid
  have hsweep := entries_startSweepIfDue
    { s.cache with entries := (key, ⟨s.clock.now, v, m⟩) :: (s.cache.erase key).entries }
    s.clock.now
  rw [hput]
  exact
    { clock := by rw [clockAfter_concat, h.clock]
      inRange := h.inRange
      settings := hsweep.1.trans h.settings
      distinct := by
        unfold KeysDistinct
        rw [hsweep.2]
        exact h.distinct.cons key _
      sound := by
        intro key' e hmem
        rw [hsweep.2] at hmem
        rcases List.mem_cons.1 hmem with heq | hmem
        · obtain ⟨rfl, rfl⟩ := Prod.mk.inj heq
          rw [h.clock]
          exact latestPut_put hvalid
        · obtain ⟨hmem, hne⟩ := mem_erase.1 hmem
          exact (h.sound key' e hmem).concat fun hop =>
            hne (Op.supersedes_put_iff.1 hop).1.symm
      complete := by
        intro key' e hlatest
        rw [hsweep.2]
        rcases hlatest.of_concat with ⟨heq, hvalid', htime⟩ | ⟨hlatest, hop⟩
        · obtain ⟨rfl, rfl⟩ := Op.put.inj heq
          obtain rfl := hvalid.unique hvalid'
          rw [← h.clock] at htime
          rw [← htime]
          exact .inl (List.mem_cons_self ..)
        · have hne : key' ≠ key := fun heq =>
            hop (Op.supersedes_put_iff.2 ⟨heq.symm, v, hvalid⟩)
          refine (h.complete key' e hlatest).imp (fun hmem => ?_) id
          exact List.mem_cons_of_mem _ (mem_erase.2 ⟨hmem, hne⟩) }

theorem Faithful.apply (h : Faithful config start ops s) (op : Op)
    (hkeys : UsesAtMost config.maxEntries (ops ++ [op])) :
    Faithful config start (ops ++ [op]) (op.apply s) := by
  cases op with
  | put key m =>
      by_cases hvalid : ∃ v, Validity config m v
      · obtain ⟨v, hvalid⟩ := hvalid
        exact h.put hvalid hkeys
      · have hput : s.cache.put key m s.clock.now = (false, s.cache) := by
          apply put_of_not_validity
          rw [h.settings]
          exact not_exists.1 hvalid
        have hsame : Shrinks (ExpiredAt s.clock.now) s.cache (s.cache.put key m s.clock.now).2 := by
          rw [hput]
          exact .of_entries_eq rfl rfl
        exact h.shrink hsame (clockAfter_concat _) fun key' hop =>
          hvalid (Op.supersedes_put_iff.1 hop).2
  | get key =>
      exact h.shrink (s.cache.shrinks_get key _ h.distinct) (clockAfter_concat _)
        (by simp [Op.Supersedes])
  | remove key => exact h.remove key
  | cleanup =>
      exact h.shrink (h.distinct.shrinks_cleanup _) (clockAfter_concat _) (by simp [Op.Supersedes])
  | advance d => exact h.advance d
  | beginSweep =>
      exact h.shrink (shrinks_beginSweep _ _) (clockAfter_concat _) (by simp [Op.Supersedes])
  | finishSweep =>
      exact h.shrink (h.distinct.shrinks_finishSweep _) (clockAfter_concat _)
        (by simp [Op.Supersedes])
  | dropSweep =>
      exact h.shrink (shrinks_dropSweep _ _) (clockAfter_concat _) (by simp [Op.Supersedes])

theorem UsesAtMost.of_append {count : Nat} {ops' : List Op} (h : UsesAtMost count (ops ++ ops')) :
    UsesAtMost count ops := by
  obtain ⟨keys, hlength, hkeys⟩ := h
  exact ⟨keys, hlength, fun op hop => hkeys op (List.mem_append_left _ hop)⟩

theorem run_faithful (background : Bool) (hstart : start.now ≤ Duration.longest)
    (hkeys : UsesAtMost config.maxEntries ops) :
    Faithful config start ops (run config background start ops) := by
  -- From the right, as a history grows at its end.
  induction ops using List.reverseRecOn with
  | nil => exact faithful_nil background hstart
  | append_singleton ops op ih =>
      rw [run_concat]
      exact (ih hkeys.of_append).apply op hkeys

theorem Faithful.get_eq_some_iff (h : Faithful config start ops s) {key : CacheKey}
    {r : Message} :
    (s.cache.get key s.clock.now).1 = some r ↔
      ∃ e, LatestPut config start ops key e ∧ s.clock.now - e.storedAt < e.validFor ∧
        r = e.response.after (s.clock.now - e.storedAt).seconds := by
  rw [h.distinct.get_eq_some_iff]
  constructor
  · rintro ⟨e, hmem, hvalid, rfl⟩
    exact ⟨e, h.sound key e hmem, Nat.lt_of_not_le hvalid, e.responseAt_eq_after _⟩
  · rintro ⟨e, hlatest, hvalid, rfl⟩
    have hfresh : ¬ ExpiredAt s.clock.now (key, e) := Nat.not_le_of_lt hvalid
    rcases h.complete key e hlatest with hmem | hexpired
    · exact ⟨e, hmem, hfresh, (e.responseAt_eq_after _).symm⟩
    · exact (hfresh hexpired).elim

theorem Faithful.get_of_latestPut (h : Faithful config start ops s) {key : CacheKey}
    {e : CacheEntry} (hlatest : LatestPut config start ops key e) (r : Message) :
    (s.cache.get key s.clock.now).1 = some r ↔
      s.clock.now - e.storedAt < e.validFor ∧
        r = e.response.after (s.clock.now - e.storedAt).seconds := by
  rw [h.get_eq_some_iff]
  constructor
  · rintro ⟨e', hlatest', hfound⟩
    rwa [hlatest.unique hlatest']
  · exact fun hfound => ⟨e, hlatest, hfound⟩

end

/-- After any calls with no more keys than the cache has room for, at whatever times:
a look-up finds the message of the latest put that still counts, aged by the whole
seconds since, if that put has not run out; a put succeeds exactly if the message may
be kept, and otherwise changes nothing; and a cleanup removes and counts what has run
out, and nothing else. -/
theorem run_follows_history (config : CacheConfig) (background : Bool) (made : Duration)
    (ops : List Op) (hkeys : UsesAtMost config.maxEntries ops) :
    let start := Clock.start.advance made
    let now := (run config background start ops).clock.now
    let cache := (run config background start ops).cache
    now = (clockAfter start ops).now ∧
    (∀ key r, (cache.get key now).1 = some r ↔
      ∃ e, LatestPut config start ops key e ∧ now - e.storedAt < e.validFor ∧
        r = e.response.after (now - e.storedAt).seconds) ∧
    (∀ key m, ((cache.put key m now).1 = true ↔ ∃ v, Validity config m v) ∧
      ((cache.put key m now).1 = false → (cache.put key m now).2 = cache)) ∧
    cache.cleanup now =
      ((cache.entries.filter fun entry => now - entry.2.storedAt ≥ entry.2.validFor).length,
        { cache with
          entries := cache.entries.filter fun entry =>
            now - entry.2.storedAt < entry.2.validFor }) := by
  intro start now cache
  have h : Faithful config start ops (run config background start ops) :=
    run_faithful background (Nat.min_le_right _ _) hkeys
  refine ⟨by rw [← h.clock], fun _ _ => h.get_eq_some_iff, fun key m => ?_, ?_⟩
  · by_cases hvalid : ∃ v, Validity config m v
    · obtain ⟨v, hv⟩ := hvalid
      have hput := put_of_validity (h.settings.symm ▸ hv) key now
      simp [hput, cache, Exists.intro v hv]
    · have hput : cache.put key m now = (false, cache) :=
        put_of_not_validity (h.settings.symm ▸ not_exists.1 hvalid) key now
      simp [hput, hvalid]
  · have hcleanup := h.distinct.cleanup_eq now
    have hkept : ∀ entry : CacheKey × CacheEntry,
        decide (¬ ExpiredAt now entry) = decide (now - entry.2.storedAt < entry.2.validFor) := by
      intro entry
      exact decide_eq_decide.2 Nat.not_le
    simp only [hkept] at hcleanup
    exact hcleanup

/-- A response with 30 seconds to live has 27 left three seconds later. -/
theorem get_three_seconds_after_put :
    let key : CacheKey := ⟨.v4 ⟨#v[192, 0, 2, 53]⟩ 53, ".", .internet, .a⟩
    let answer : Int32 → Message := fun ttl =>
      ⟨⟨0, 0x8180⟩, ⟨0, 1, 0, 0⟩, [], [⟨⟨.root, .a, .internet, ttl, 4⟩, .a ⟨#v[192, 0, 2, 1]⟩⟩],
        [], [], 27⟩
    let ops := [.put key (answer 30), .advance (.ofSeconds 3)]
    let s := run ⟨1, none, .ofSeconds 600⟩ true (Clock.start.advance 0) ops
    UsesAtMost 1 ops ∧ (s.cache.get key s.clock.now).1 = some (answer 27) := by
  intro key answer ops s
  have hkeys : UsesAtMost 1 ops := ⟨[key], Nat.le_refl _, by simp [ops, Op.key?]⟩
  refine ⟨hkeys, ?_⟩
  have hvalid : Validity ⟨1, none, .ofSeconds 600⟩ (answer 30) (.ofSeconds 30) :=
    (validity?_eq_some_iff _ _ _).1 (by decide)
  have hlatest : LatestPut ⟨1, none, .ofSeconds 600⟩ (Clock.start.advance 0) ops key
      ⟨0, .ofSeconds 30, answer 30⟩ :=
    ⟨[], [.advance (.ofSeconds 3)], rfl, hvalid, rfl, by simp⟩
  have hhistory := run_follows_history ⟨1, none, .ofSeconds 600⟩ true 0 ops hkeys
  have hnow : s.clock.now = .ofSeconds 3 := by decide
  refine (hhistory.2.1 key (answer 27)).2 ⟨_, hlatest, ?_, ?_⟩
  · show s.clock.now - 0 < .ofSeconds 30
    rw [hnow]
    decide
  · show answer 27 = (answer 30).after (s.clock.now - 0).seconds
    rw [hnow]
    decide

end StubResolver.Cache
