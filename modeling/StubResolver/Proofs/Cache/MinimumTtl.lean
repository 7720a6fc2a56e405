import StubResolver.Proofs.Cache.History

/-!
# What a minimum time to live is worth

A stricter minimum has everything kept that a weaker one has, and for as long or
longer. The one exception is the infinite minimum, which stands for a time of its
own: past that time nothing is found any more, whatever the records and a weaker
minimum allow.
-/

namespace StubResolver

/-- From no minimum over longer and longer ones to the infinite one. -/
inductive MinimumTtl.Weaker : Option MinimumTtl → Option MinimumTtl → Prop where
  | absent (strict : Option MinimumTtl) : Weaker none strict
  | shorter {d d' : Duration} (h : d ≤ d') : Weaker (some (.duration d)) (some (.duration d'))
  | infinite (weak : Option MinimumTtl) : Weaker weak (some .infinite)

section

variable {weak strict : Option MinimumTtl} {config : CacheConfig} {m : Message} {v : Duration}

theorem MinimumTtl.Weaker.raise_le (h : Weaker weak strict) (hfinite : strict ≠ some .infinite)
    (ttl : Duration) : raiseToMinimum weak ttl ≤ raiseToMinimum strict ttl := by
  cases h with
  | absent =>
    match strict with
    | none => exact Nat.le_refl ttl
    | some (.duration d) => exact Nat.le_max_left ttl d
    | some .infinite => contradiction
  | shorter h => exact Nat.max_le.2 ⟨Nat.le_max_left _ _, Nat.le_trans h (Nat.le_max_right _ _)⟩
  | infinite => contradiction

theorem MinimumTtl.Weaker.le_raise_iff (h : Weaker weak strict) {t ttl : Duration}
    (ht : t ≤ raiseToMinimum weak ttl) :
    t ≤ raiseToMinimum strict ttl ↔ (strict = some .infinite → t ≤ infiniteValidity) := by
  by_cases hstrict : strict = some .infinite
  · simp [hstrict, raiseToMinimum]
  · simp [hstrict, Nat.le_trans ht (h.raise_le hstrict ttl)]

theorem Validity.eq_raise {ttl : Int} (h : Validity config m v) (httl : m.LeastTtl ttl) :
    v = raiseToMinimum config.minimumTtl (.ofSeconds ttl.toNat) := by
  obtain ⟨ttl', httl', htime⟩ := h.time
  rw [← Message.minTtl?_eq_some_iff] at httl httl'
  obtain rfl := Option.some.inj (httl.symm.trans httl')
  exact ((raiseToMinimum_eq_iff _ _ _).2 htime).symm

theorem Validity.stricter (h : Validity (config.setMinimumTtl weak) m v)
    (hweaker : MinimumTtl.Weaker weak strict) :
    ∃ v', Validity (config.setMinimumTtl strict) m v' ∧
      ∀ t ≤ v, t ≤ v' ↔ (strict = some .infinite → t ≤ infiniteValidity) := by
  obtain ⟨ttl, httl, -⟩ := h.time
  obtain rfl := h.eq_raise httl
  have hsecond := (hweaker.le_raise_iff h.aSecond).2 fun _ => by decide
  exact ⟨_, ⟨h.noError, h.whole, ⟨ttl, httl, (raiseToMinimum_eq_iff _ _ _).1 rfl⟩, hsecond⟩,
    fun t ht => hweaker.le_raise_iff ht⟩

end

namespace Cache

theorem Op.Supersedes.stricter {weak strict : Option MinimumTtl} {config : CacheConfig}
    {key : CacheKey} {op : Op} (h : op.Supersedes (config.setMinimumTtl weak) key)
    (hweaker : MinimumTtl.Weaker weak strict) :
    op.Supersedes (config.setMinimumTtl strict) key := by
  rcases h with hremove | ⟨m, v, hput, hvalid⟩
  · exact .inl hremove
  · obtain ⟨v', hvalid', -⟩ := hvalid.stricter hweaker
    exact .inr ⟨m, v', hput, hvalid'⟩

/-! ## One history under different minimums -/

def storedAfter (config : CacheConfig) (background : Bool) (made : Duration) (ops : List Op)
    (key : CacheKey) (m : Message) : Bool :=
  let s := run config background (Clock.start.advance made) ops
  (s.cache.put key m s.clock.now).1

def foundAfter (config : CacheConfig) (background : Bool) (made : Duration) (ops : List Op)
    (key : CacheKey) : Option Message :=
  let s := run config background (Clock.start.advance made) ops
  (s.cache.get key s.clock.now).1

def elapsed (made : Duration) (before after : List Op) : Duration :=
  let start := Clock.start.advance made
  (clockAfter start (before ++ after)).now - (clockAfter start before).now

section

variable (config : CacheConfig) {background : Bool} {made : Duration} {before after : List Op}
  {key : CacheKey} {m : Message} {v : Duration}

theorem storedAfter_iff (hkeys : UsesAtMost config.maxEntries before) :
    storedAfter config background made before key m = true ↔ ∃ v, Validity config m v := by
  have h : Faithful config _ before (run config background (Clock.start.advance made) before) :=
    run_faithful background (Nat.min_le_right _ _) hkeys
  unfold storedAfter
  rw [put_eq_true_iff, h.settings]

theorem foundAfter_put (hkeys : UsesAtMost config.maxEntries (before ++ .put key m :: after))
    (hvalid : Validity config m v) (hafter : ∀ op ∈ after, ¬ op.Supersedes config key)
    (r : Message) :
    foundAfter config background made (before ++ .put key m :: after) key = some r ↔
      elapsed made before (.put key m :: after) < v ∧
        r = m.after (elapsed made before (.put key m :: after)).seconds := by
  let start := Clock.start.advance made
  have h : Faithful config start _ (run config background start (before ++ .put key m :: after)) :=
    run_faithful background (Nat.min_le_right _ _) hkeys
  have hlatest : LatestPut config start (before ++ .put key m :: after) key
      ⟨(clockAfter start before).now, v, m⟩ :=
    ⟨before, after, rfl, hvalid, rfl, hafter⟩
  have helapsed : elapsed made before (.put key m :: after) =
      (run config background start (before ++ .put key m :: after)).clock.now -
        (clockAfter start before).now := by
    rw [h.clock]
    rfl
  rw [helapsed]
  exact h.get_of_latestPut hlatest r

end

/-- A response that is valid under a minimum is valid under a stricter one, and for
as long or longer unless that is the infinite minimum and its time is shorter. With
the same exception, no response is valid for less than its records have to live. So
whatever else a cache is used for, with no more keys than it has room for: what it
takes and finds under a minimum it takes and finds under a stricter one, in the same
state, unless the time of the infinite minimum is over. -/
theorem minimum_lengthens_iff (config : CacheConfig) (m : Message)
    (weak strict : Option MinimumTtl) (hweaker : MinimumTtl.Weaker weak strict) :
    (∀ v, validity? (config.setMinimumTtl weak) m = some v →
      ∃ v', validity? (config.setMinimumTtl strict) m = some v' ∧
        (v ≤ v' ↔ (strict = some .infinite → v ≤ infiniteValidity))) ∧
    (∀ v ttl, validity? (config.setMinimumTtl strict) m = some v → m.minTtl? = some ttl →
      (.ofSeconds ttl.toNat ≤ v ↔
        (strict = some .infinite → .ofSeconds ttl.toNat ≤ infiniteValidity))) ∧
    ∀ (background : Bool) (made : Duration) (before after : List Op) (key : CacheKey),
      let stored := fun minimum =>
        storedAfter (config.setMinimumTtl minimum) background made before key m
      let found := fun minimum =>
        foundAfter (config.setMinimumTtl minimum) background made (before ++ .put key m :: after)
          key
      UsesAtMost config.maxEntries (before ++ .put key m :: after) →
      (∀ op ∈ after, ¬ op.Supersedes (config.setMinimumTtl strict) key) →
      stored weak = true →
        stored strict = true ∧
        ∀ r, found weak = some r → (found strict = some r ↔ (strict = some .infinite →
          elapsed made before (.put key m :: after) < infiniteValidity)) := by
  refine ⟨fun v hv => ?_, fun v ttl hv httl => ?_, ?_⟩
  · rw [validity?_eq_some_iff] at hv
    obtain ⟨v', hvalid', hlonger⟩ := hv.stricter hweaker
    exact ⟨v', (validity?_eq_some_iff _ _ _).2 hvalid', hlonger v (Nat.le_refl v)⟩
  · rw [validity?_eq_some_iff] at hv
    rw [hv.eq_raise ((m.minTtl?_eq_some_iff ttl).1 httl)]
    exact (MinimumTtl.Weaker.absent strict).le_raise_iff (Nat.le_refl _)
  · intro background made before after key stored found hkeys hafter hweak
    have hstored : ∀ minimum, stored minimum = true ↔
        ∃ v, Validity (config.setMinimumTtl minimum) m v :=
      fun minimum => storedAfter_iff (config.setMinimumTtl minimum) hkeys.of_append
    obtain ⟨v, hvalid⟩ := (hstored weak).1 hweak
    obtain ⟨v', hvalid', hlonger⟩ := hvalid.stricter hweaker
    refine ⟨(hstored strict).2 ⟨v', hvalid'⟩, fun r hr => ?_⟩
    -- The weaker minimum has fewer puts succeed, so none of them supersedes this one either.
    have hafter' : ∀ op ∈ after, ¬ op.Supersedes (config.setMinimumTtl weak) key :=
      fun op hop hsupersedes => hafter op hop (hsupersedes.stricter hweaker)
    obtain ⟨hfresh, rfl⟩ :=
      (foundAfter_put (config.setMinimumTtl weak) hkeys hvalid hafter' r).1 hr
    show foundAfter _ _ _ _ _ = _ ↔ _
    rw [foundAfter_put (config.setMinimumTtl strict) hkeys hvalid' hafter, and_iff_left rfl]
    exact hlonger _ hfresh

/-- A minute later, 30 seconds to live have run out, but
not a minimum of 90 seconds, nor the infinite one. -/
theorem found_a_minute_after_put :
    let key : CacheKey := ⟨.v4 ⟨#v[192, 0, 2, 53]⟩ 53, ".", .internet, .a⟩
    let answer : Int32 → Message := fun ttl =>
      ⟨⟨0, 0x8180⟩, ⟨0, 1, 0, 0⟩, [], [⟨⟨.root, .a, .internet, ttl, 4⟩, .a ⟨#v[192, 0, 2, 1]⟩⟩],
        [], [], 27⟩
    let after := [.advance (.ofSeconds 60)]
    let ops := .put key (answer 30) :: after
    let minimum : Option MinimumTtl := some (.duration (.ofSeconds 90))
    MinimumTtl.Weaker minimum (some .infinite) ∧ UsesAtMost CacheConfig.default.maxEntries ops ∧
      (∀ op ∈ after, ¬ op.Supersedes (CacheConfig.default.setMinimumTtl (some .infinite)) key) ∧
      foundAfter (CacheConfig.default.setMinimumTtl minimum) true 0 ops key = some (answer 0) ∧
      foundAfter (CacheConfig.default.setMinimumTtl (some .infinite)) true 0 ops key =
        some (answer 0) := by
  intro key answer after ops minimum
  have hweaker : MinimumTtl.Weaker minimum (some .infinite) := .infinite _
  have hkeys : UsesAtMost CacheConfig.default.maxEntries ops :=
    ⟨[key], by decide, by simp [ops, after, Op.key?]⟩
  have hafter : ∀ op ∈ after,
      ¬ op.Supersedes (CacheConfig.default.setMinimumTtl (some .infinite)) key := by
    simp [after]
  have hfound : foundAfter (CacheConfig.default.setMinimumTtl minimum) true 0 ops key =
      some (answer 0) := by
    decide
  have hlengthens := (minimum_lengthens_iff CacheConfig.default (answer 30) minimum
    (some .infinite) hweaker).2.2 true 0 [] after key hkeys hafter (by decide)
  have helapsed : elapsed 0 [] (.put key (answer 30) :: after) < infiniteValidity := by decide
  exact ⟨hweaker, hkeys, hafter, hfound,
    (hlengthens.2 (answer 0) hfound).2 fun _ => helapsed⟩

/-- A response with 30 days to live is found after 25 days if there is no minimum,
but not if the minimum is infinite, as it is only valid for 2147483.647 seconds
then. -/
theorem infinite_minimum_shortens :
    let key : CacheKey := ⟨.v4 ⟨#v[192, 0, 2, 53]⟩ 53, ".", .internet, .a⟩
    let answer : Int32 → Message := fun ttl =>
      ⟨⟨0, 0x8180⟩, ⟨0, 1, 0, 0⟩, [], [⟨⟨.root, .a, .internet, ttl, 4⟩, .a ⟨#v[192, 0, 2, 1]⟩⟩],
        [], [], 27⟩
    let ops := [.put key (answer 2592000), .advance (.ofSeconds 2160000)]
    let infinite := CacheConfig.default.setMinimumTtl (some .infinite)
    MinimumTtl.Weaker none (some .infinite) ∧
      storedAfter CacheConfig.default true 0 [] key (answer 2592000) = true ∧
      foundAfter CacheConfig.default true 0 ops key = some (answer 432000) ∧
      storedAfter infinite true 0 [] key (answer 2592000) = true ∧
      foundAfter infinite true 0 ops key = none ∧
      validity? infinite (answer 2592000) = some (.ofMillis 2147483647) ∧
      Duration.ofMillis 2147483647 < .ofSeconds 2592000 := by
  intro key answer ops infinite
  refine ⟨.infinite none, ?_⟩
  decide

end Cache

end StubResolver
