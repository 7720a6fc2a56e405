import StubResolver.Proofs.Cache.History

/-!
# Calls that overlap

A look-up that finds an expired entry removes its key in a second step, and a cleanup
collects the keys of all expired entries before it removes one after the other.
Between these steps others may store under the same keys. A removal takes away an
entry that has not expired only if that happened: the entry was stored after the call
had found an earlier one expired.
-/

namespace StubResolver.Cache

/-! ## Steps -/

structure Removal where
  call : Nat
  keys : List CacheKey

structure Busy where
  clock : Clock
  cache : Cache
  removals : List Removal
  /-- How many calls have found something expired so far. -/
  calls : Nat

namespace Busy

def start (config : CacheConfig) (background : Bool) (made : Duration) : Busy :=
  let clock := Clock.start.advance made
  ⟨clock, .empty config background clock.now, [], 0⟩

def removing (s : Busy) (keys : List CacheKey) : Busy :=
  { s with removals := ⟨s.calls, keys⟩ :: s.removals, calls := s.calls + 1 }

inductive Event where
  | stored (key : CacheKey) (e : CacheEntry)
  | refused (key : CacheKey)
  | lookedUp (key : CacheKey)
  | found (call : Nat) (keys : List CacheKey)
  | removed (call : Nat) (key : CacheKey)
  | returned (call : Nat)
  | erased (key : CacheKey)
  | passed (d : Duration)

/-- What one call may do between two points where others may go on. The sweeps in the
background take the steps of a cleanup. -/
inductive Step : Busy → Event → Busy → Prop where
  | store {s : Busy} {key : CacheKey} {m : Message} {v : Duration}
      (valid : validity? s.cache.config m = some v) :
      Step s (.stored key ⟨s.clock.now, v, m⟩)
        { s with cache := (s.cache.put key m s.clock.now).2 }
  | refuse {s : Busy} {key : CacheKey} {m : Message}
      (invalid : validity? s.cache.config m = none) :
      Step s (.refused key) { s with cache := (s.cache.put key m s.clock.now).2 }
  | lookUp {s : Busy} {key : CacheKey} (fresh : s.cache.find key s.clock.now ≠ .expired) :
      Step s (.lookedUp key) { s with cache := (s.cache.get key s.clock.now).2 }
  | findExpired {s : Busy} {key : CacheKey} (expired : s.cache.find key s.clock.now = .expired) :
      Step s (.found s.calls [key]) (s.removing [key])
  | collect (s : Busy) :
      Step s (.found s.calls (s.cache.expiredKeys s.clock.now))
        (s.removing (s.cache.expiredKeys s.clock.now))
  | remove {s : Busy} {before after : List Removal} {call : Nat} {key : CacheKey}
      {keys : List CacheKey} (under : s.removals = before ++ ⟨call, key :: keys⟩ :: after) :
      Step s (.removed call key)
        { s with cache := s.cache.erase key, removals := before ++ ⟨call, keys⟩ :: after }
  | finish {s : Busy} {before after : List Removal} {call : Nat}
      (done : s.removals = before ++ ⟨call, []⟩ :: after) :
      Step s (.returned call) { s with removals := before ++ after }
  | erase (s : Busy) (key : CacheKey) :
      Step s (.erased key) { s with cache := s.cache.erase key }
  | pass (s : Busy) (d : Duration) : Step s (.passed d) { s with clock := s.clock.advance d }

/-- The history has the last event first. -/
inductive Run (start : Busy) : List Event → Busy → Prop where
  | nil : Run start [] start
  | step {history : List Event} {s s' : Busy} {event : Event} (earlier : Run start history s)
      (last : Step s event s') : Run start (event :: history) s'

section

variable {s s' : Busy} {event : Event} {history : List Event} {key : CacheKey} {e : CacheEntry}
  {r r' : Removal}

/-! ## What one step does -/

theorem Step.config_eq (h : Step s event s') : s'.cache.config = s.cache.config := by
  cases h with
  | store => exact (s.cache.put_entries _ _ _).1
  | refuse => exact (s.cache.put_entries _ _ _).1
  | lookUp fresh => exact (entries_get_of_fresh fresh).1
  | _ => rfl

theorem Step.distinct (h : Step s event s') (hdistinct : s.cache.KeysDistinct) :
    s'.cache.KeysDistinct := by
  cases h with
  | store => exact KeysDistinct.put hdistinct _ _ _
  | refuse => exact KeysDistinct.put hdistinct _ _ _
  | lookUp fresh =>
      unfold KeysDistinct
      rw [(entries_get_of_fresh fresh).2]
      exact hdistinct
  | remove => exact (s.cache.shrinks_erase _).keysDistinct hdistinct
  | erase => exact (s.cache.shrinks_erase _).keysDistinct hdistinct
  | findExpired | collect | finish | pass => exact hdistinct

theorem Step.now_le (h : Step s event s') (hrange : s.clock.now ≤ Duration.longest) :
    s.clock.now ≤ s'.clock.now ∧ s'.clock.now ≤ Duration.longest := by
  cases h with
  | pass d => exact ⟨Clock.now_le_advance hrange d, s.clock.advance_le_longest d⟩
  | _ => exact ⟨Nat.le_refl _, hrange⟩

theorem Step.mem_or_stored (h : Step s event s') (hmem : (key, e) ∈ s'.cache.entries) :
    (key, e) ∈ s.cache.entries ∨ event = .stored key e := by
  cases h with
  | @store key' m v valid =>
      rcases (s.cache.put_entries key' m s.clock.now).2 _ hmem with hold | ⟨v', hvalid, heq⟩
      · exact .inl hold
      · obtain rfl := Option.some.inj (valid.symm.trans hvalid)
        obtain ⟨rfl, rfl⟩ := Prod.mk.inj heq
        exact .inr rfl
  | @refuse key' m invalid =>
      rcases (s.cache.put_entries key' m s.clock.now).2 _ hmem with hold | ⟨v', hvalid, -⟩
      · exact .inl hold
      · cases invalid.symm.trans hvalid
  | lookUp fresh =>
      rw [(entries_get_of_fresh fresh).2] at hmem
      exact .inl hmem
  | remove => exact .inl (mem_erase.1 hmem).1
  | erase => exact .inl (mem_erase.1 hmem).1
  | findExpired | collect | finish | pass => exact .inl hmem

inductive Ousts (key : CacheKey) : Event → Prop where
  | stored (e : CacheEntry) : Ousts key (.stored key e)
  | removed (call : Nat) : Ousts key (.removed call key)
  | erased : Ousts key (.erased key)

theorem Step.mem_or_ousts (h : Step s event s') (hmem : (key, e) ∈ s.cache.entries) :
    (key, e) ∈ s'.cache.entries ∨ Ousts key event := by
  have herase (key' : CacheKey) : (key, e) ∈ (s.cache.erase key').entries ∨ key = key' := by
    by_cases hkey : key = key'
    · exact .inr hkey
    · exact .inl (mem_erase.2 ⟨hmem, hkey⟩)
  cases h with
  | @store key' m v valid =>
      rw [entries_put valid]
      by_cases hroom : (s.cache.erase key').entries.length < s.cache.config.maxEntries
      · rw [entries_insert_of_room hroom]
        rcases herase key' with hkept | rfl
        · exact .inl (List.mem_cons_of_mem _ hkept)
        · exact .inr (.stored _)
      · rw [insert_of_full hroom]
        exact .inl hmem
  | @refuse key' m invalid =>
      rw [Cache.put, invalid]
      exact .inl hmem
  | lookUp fresh =>
      rw [(entries_get_of_fresh fresh).2]
      exact .inl hmem
  | @remove _ _ call key' _ under =>
      rcases herase key' with hkept | rfl
      · exact .inl hkept
      · exact .inr (.removed call)
  | erase key' =>
      rcases herase key' with hkept | rfl
      · exact .inl hkept
      · exact .inr .erased
  | findExpired | collect | finish | pass => exact .inl hmem

theorem Step.removal_cases (h : Step s event s') (hdistinct : s.cache.KeysDistinct)
    (hr : r' ∈ s'.removals) :
    (∃ r ∈ s.removals, r'.call = r.call ∧ r'.keys ⊆ r.keys) ∨
      (event = .found r'.call r'.keys ∧ s'.cache = s.cache ∧
        ∀ key ∈ r'.keys, ∀ e, (key, e) ∈ s.cache.entries → ExpiredAt s.clock.now (key, e)) := by
  have hold (hr : r' ∈ s.removals) : ∃ r ∈ s.removals, r'.call = r.call ∧ r'.keys ⊆ r.keys :=
    ⟨r', hr, rfl, List.Subset.refl _⟩
  cases h with
  | @findExpired key' expired =>
      rcases List.mem_cons.1 hr with rfl | hr
      · refine .inr ⟨rfl, rfl, fun key hkey e hmem => ?_⟩
        obtain rfl := List.mem_singleton.1 hkey
        exact isExpired_of_find expired hdistinct hmem
      · exact .inl (hold hr)
  | collect =>
      rcases List.mem_cons.1 hr with rfl | hr
      · exact .inr ⟨rfl, rfl, fun key hkey e hmem => (hdistinct.mem_expiredKeys_iff hmem).1 hkey⟩
      · exact .inl (hold hr)
  | @remove before after call key' keys under =>
      rcases List.mem_append.1 hr with hr | hr
      · exact .inl (hold (by simp [under, hr]))
      · rcases List.mem_cons.1 hr with rfl | hr
        · exact .inl ⟨⟨call, key' :: keys⟩, by simp [under], rfl, List.subset_cons_self _ _⟩
        · exact .inl (hold (by simp [under, hr]))
  | @finish before after call done =>
      rcases List.mem_append.1 hr with hr | hr
      · exact .inl (hold (by simp [done, hr]))
      · exact .inl (hold (by simp [done, hr]))
  | store | refuse | lookUp | erase | pass => exact .inl (hold hr)

theorem Step.of_removed {call : Nat} (h : Step s (.removed call key) s') :
    ∃ r ∈ s.removals, r.call = call ∧ key ∈ r.keys := by
  cases h with
  | @remove _ _ _ _ keys under =>
      exact ⟨⟨call, key :: keys⟩, by simp [under], rfl, List.mem_cons_self⟩

theorem Step.mem_of_stored (h : Step s (.stored key e) s')
    (hroom : (s.cache.erase key).entries.length < s.cache.config.maxEntries) :
    (key, e) ∈ s'.cache.entries := by
  cases h with
  | store valid =>
      rw [entries_put valid, entries_insert_of_room hroom]
      exact List.mem_cons_self

end

/-! ## Runs -/

/-- The call has found its keys before. What has not expired
under those that it has still to remove was stored since. -/
def Accounted (history : List Event) (s : Busy) (r : Removal) : Prop :=
  ∃ later keys earlier, history = later ++ .found r.call keys :: earlier ∧
    ∀ key ∈ r.keys, key ∈ keys ∧ ∀ e, (key, e) ∈ s.cache.entries →
      ExpiredAt s.clock.now (key, e) ∨ .stored key e ∈ later

structure Consistent (config : CacheConfig) (history : List Event) (s : Busy) : Prop where
  settings : s.cache.config = config
  inRange : s.clock.now ≤ Duration.longest
  distinct : s.cache.KeysDistinct
  sound : ∀ key e, (key, e) ∈ s.cache.entries → .stored key e ∈ history
  accounted : ∀ r ∈ s.removals, Accounted history s r

def StoresAtMost (count : Nat) (history : List Event) : Prop :=
  ∃ keys : List CacheKey, keys.length ≤ count ∧ ∀ key e, .stored key e ∈ history → key ∈ keys

def Superseded (key : CacheKey) (later : List Event) : Prop :=
  .erased key ∈ later ∨ ∃ e, .stored key e ∈ later

/-- A call that had found the key before has removed it since. -/
def Overtaken (key : CacheKey) (earlier later : List Event) : Prop :=
  ∃ call keys, .removed call key ∈ later ∧ .found call keys ∈ earlier ∧ key ∈ keys

section

variable {config : CacheConfig} {background : Bool} {made : Duration} {s s' : Busy} {event : Event}
  {history earlier later : List Event} {key : CacheKey} {e : CacheEntry} {r r' : Removal}

theorem Accounted.step (h : Accounted history s r) (hstep : Step s event s')
    (hrange : s.clock.now ≤ Duration.longest) (hcall : r'.call = r.call)
    (hkeys : r'.keys ⊆ r.keys) : Accounted (event :: history) s' r' := by
  obtain ⟨later, keys, earlier, hsplit, hfound⟩ := h
  refine ⟨event :: later, keys, earlier, by rw [hsplit, hcall]; rfl, fun key hkey => ?_⟩
  obtain ⟨hmem, hentries⟩ := hfound key (hkeys hkey)
  refine ⟨hmem, fun e he => ?_⟩
  rcases hstep.mem_or_stored he with hold | rfl
  · -- An entry that had expired has expired later, too.
    rcases hentries e hold with hexpired | hstored
    · exact .inl (hexpired.mono (hstep.now_le hrange).1)
    · exact .inr (List.mem_cons_of_mem _ hstored)
  · exact .inr List.mem_cons_self

theorem Consistent.step (h : Consistent config history s) (hstep : Step s event s') :
    Consistent config (event :: history) s' where
  settings := hstep.config_eq.trans h.settings
  inRange := (hstep.now_le h.inRange).2
  distinct := hstep.distinct h.distinct
  sound := by
    intro key e hmem
    rcases hstep.mem_or_stored hmem with hold | rfl
    · exact List.mem_cons_of_mem _ (h.sound key e hold)
    · exact List.mem_cons_self
  accounted := by
    intro r' hr'
    rcases hstep.removal_cases h.distinct hr' with ⟨r, hr, hcall, hkeys⟩ | ⟨rfl, hcache, hexpired⟩
    · exact (h.accounted r hr).step hstep h.inRange hcall hkeys
    · refine ⟨[], r'.keys, history, rfl, fun key hkey => ⟨hkey, fun e hmem => ?_⟩⟩
      rw [hcache] at hmem
      exact .inl ((hexpired key hkey e hmem).mono (hstep.now_le h.inRange).1)

theorem Run.consistent (h : Run (start config background made) history s) :
    Consistent config history s := by
  induction h with
  | nil => exact ⟨rfl, Clock.start.advance_le_longest made, List.nodup_nil, nofun, nofun⟩
  | step _ last ih => exact ih.step last

theorem Consistent.removed (h : Consistent config history s) {call : Nat}
    (hstep : Step s (.removed call key) s') (hmem : (key, e) ∈ s.cache.entries) :
    ExpiredAt s.clock.now (key, e) ∨
      ∃ later keys earlier, history = later ++ .found call keys :: earlier ∧ key ∈ keys ∧
        .stored key e ∈ later := by
  obtain ⟨r, hr, rfl, hkey⟩ := hstep.of_removed
  obtain ⟨later, keys, earlier, hsplit, hfound⟩ := h.accounted r hr
  obtain ⟨hkeys, hentries⟩ := hfound key hkey
  exact (hentries e hmem).imp id fun hstored => ⟨later, keys, earlier, hsplit, hkeys, hstored⟩

theorem StoresAtMost.of_cons {count : Nat} (h : StoresAtMost count (event :: history)) :
    StoresAtMost count history := by
  obtain ⟨keys, hlength, hkeys⟩ := h
  exact ⟨keys, hlength, fun key e hmem => hkeys key e (List.mem_cons_of_mem _ hmem)⟩

theorem Consistent.room (h : Consistent config history s)
    (hroom : StoresAtMost config.maxEntries (.stored key e :: history)) :
    (s.cache.erase key).entries.length < s.cache.config.maxEntries := by
  obtain ⟨keys, hlength, hkeys⟩ := hroom
  rw [← h.settings] at hlength
  refine h.distinct.room hlength (hkeys key e List.mem_cons_self) fun entry hentry => ?_
  exact hkeys entry.1 entry.2 (List.mem_cons_of_mem _ (h.sound _ _ hentry))

theorem superseded_or_earlier {found : List Event} {call : Nat} {keys : List CacheKey}
    (hsplit : later ++ .stored key e :: earlier = found ++ .found call keys :: history)
    (hstored : .stored key e ∈ found) :
    (∃ e, .stored key e ∈ later) ∨ .found call keys ∈ earlier := by
  rcases List.append_eq_append_iff.1 hsplit with ⟨between, -, hrest⟩ | ⟨between, rfl, -⟩
  · cases between with
    | nil => cases hrest
    | cons first between =>
        refine .inr ?_
        rw [(List.cons.inj hrest).2]
        simp
  · exact .inl ⟨e, List.mem_append_left _ hstored⟩

theorem Run.stays (h : Run (start config background made) history s)
    (hroom : StoresAtMost config.maxEntries history)
    (hsplit : history = later ++ .stored key e :: earlier) :
    ((key, e) ∈ s.cache.entries ∨ ExpiredAt s.clock.now (key, e)) ∨
      Superseded key later ∨ Overtaken key earlier later := by
  induction h generalizing later with
  | nil => simp at hsplit
  | @step history s s' event hrun last ih =>
      have hconsistent := hrun.consistent
      rcases later with _ | ⟨first, later⟩
      · obtain ⟨rfl, rfl⟩ := List.cons.inj hsplit
        exact .inl (.inl (last.mem_of_stored (hconsistent.room hroom)))
      · obtain ⟨rfl, rfl⟩ := List.cons.inj hsplit
        rcases ih hroom.of_cons rfl with (hmem | hexpired) | hsuperseded | hovertaken
        · rcases last.mem_or_ousts hmem with hkept | hout
          · exact .inl (.inl hkept)
          · cases hout with
            | stored e' => exact .inr (.inl (.inr ⟨e', List.mem_cons_self⟩))
            | erased => exact .inr (.inl (.inl List.mem_cons_self))
            | removed call =>
                -- What was stored since the call had found its keys may be this entry,
                -- or a later one.
                rcases hconsistent.removed last hmem with
                  hexpired | ⟨_, keys, _, hfound, hkey, hstored⟩
                · exact .inl (.inr (hexpired.mono (last.now_le hconsistent.inRange).1))
                · rcases superseded_or_earlier hfound hstored with ⟨e', hagain⟩ | hearlier
                  · exact .inr (.inl (.inr ⟨e', List.mem_cons_of_mem _ hagain⟩))
                  · exact .inr (.inr ⟨call, keys, List.mem_cons_self, hearlier, hkey⟩)
        · exact .inl (.inr (hexpired.mono (last.now_le hconsistent.inRange).1))
        · refine .inr (.inl (hsuperseded.imp (List.mem_cons_of_mem _) ?_))
          exact fun ⟨e', hagain⟩ => ⟨e', List.mem_cons_of_mem _ hagain⟩
        · obtain ⟨call, keys, hremoved, hearlier, hkey⟩ := hovertaken
          exact .inr (.inr ⟨call, keys, List.mem_cons_of_mem _ hremoved, hearlier, hkey⟩)

/-! ## Calls alone -/

theorem Run.trans {start : Busy} {history' : List Event} (h : Run start history s)
    (h' : Run s history' s') : Run start (history' ++ history) s' := by
  induction h' with
  | nil => exact h
  | step _ last ih => exact .step ih last

theorem run_removing (s : Busy) (call : Nat) (keys : List CacheKey) (rest : List Removal)
    (hunder : s.removals = ⟨call, keys⟩ :: rest) :
    ∃ history,
      Run s history { s with cache := keys.foldl Cache.erase s.cache, removals := rest } := by
  induction keys generalizing s with
  | nil =>
      have hdone : s.removals = [] ++ ⟨call, []⟩ :: rest := hunder
      exact ⟨_, .step .nil (.finish hdone)⟩
  | cons key keys ih =>
      have hnext : s.removals = [] ++ ⟨call, key :: keys⟩ :: rest := hunder
      obtain ⟨history, hrun⟩ := ih
        { s with cache := s.cache.erase key, removals := ⟨call, keys⟩ :: rest } rfl
      exact ⟨_, (Run.step .nil (.remove hnext)).trans hrun⟩

/-- A look-up or a cleanup that nothing comes
between does in its steps what it does at once. -/
theorem calls_alone (s : Busy) :
    (∀ key, ∃ history calls,
      Run s history { s with cache := (s.cache.get key s.clock.now).2, calls := calls }) ∧
    ∃ history calls,
      Run s history { s with cache := (s.cache.cleanup s.clock.now).2, calls := calls } := by
  have hremoving (keys : List CacheKey) (hfirst : Step s (.found s.calls keys) (s.removing keys)) :
      ∃ history calls,
        Run s history { s with cache := keys.foldl Cache.erase s.cache, calls := calls } := by
    obtain ⟨history, hrun⟩ := run_removing (s.removing keys) s.calls keys s.removals rfl
    exact ⟨_, _, (Run.step .nil hfirst).trans hrun⟩
  refine ⟨fun key => ?_, hremoving _ (.collect s)⟩
  by_cases hfind : s.cache.find key s.clock.now = .expired
  · obtain ⟨history, calls, hrun⟩ := hremoving [key] (.findExpired hfind)
    refine ⟨history, calls, ?_⟩
    rw [Cache.get, hfind]
    exact hrun
  · exact ⟨_, s.calls, .step .nil (.lookUp hfind)⟩

end

/-! ## What is removed and what stays -/

/-- Whatever calls overlap and however: an entry that a look-up or a cleanup removes
has expired, or it was stored after the call had found its key. If no more keys are
stored than the cache may have entries, what is stored is found until it expires, is
replaced or removed on purpose, or a call removes its key that had found it
before. -/
theorem run_spares_valid {config : CacheConfig} {background : Bool} {made : Duration} {s : Busy}
    {history : List Event} (hrun : Run (start config background made) history s) :
    (∀ call key s' e, Step s (.removed call key) s' → (key, e) ∈ s.cache.entries →
      e.isExpired s.clock.now = true ∨
        ∃ later keys earlier, history = later ++ .found call keys :: earlier ∧ key ∈ keys ∧
          .stored key e ∈ later) ∧
    (StoresAtMost config.maxEntries history →
      ∀ later earlier key e, history = later ++ .stored key e :: earlier →
        (s.cache.get key s.clock.now).1 = some (e.responseAt s.clock.now) ∨
          e.isExpired s.clock.now = true ∨ Superseded key later ∨ Overtaken key earlier later) := by
  have hconsistent := hrun.consistent
  refine ⟨fun call key s' e hstep hmem => ?_, fun hroom later earlier key e hsplit => ?_⟩
  · exact (hconsistent.removed hstep hmem).imp isExpired_iff.2 id
  · rcases hrun.stays hroom hsplit with (hmem | hexpired) | hgone
    · by_cases hexpired : ExpiredAt s.clock.now (key, e)
      · exact .inr (.inl (isExpired_iff.2 hexpired))
      · exact .inl (hconsistent.distinct.get_eq_some_iff.2 ⟨e, hmem, hexpired, rfl⟩)
    · exact .inr (.inl (isExpired_iff.2 hexpired))
    · exact .inr (.inr hgone)

/-- A response that is stored when a cleanup has looked
for expired ones is found three seconds later. -/
theorem found_beside_cleanup :
    let key : CacheKey := ⟨.v4 ⟨#v[192, 0, 2, 53]⟩ 53, ".", .internet, .a⟩
    let answer (ttl : Int32) : Message :=
      ⟨⟨0, 0x8180⟩, ⟨0, 1, 0, 0⟩, [], [⟨⟨.root, .a, .internet, ttl, 4⟩, .a ⟨#v[192, 0, 2, 1]⟩⟩],
        [], [], 27⟩
    let empty := start .default true 0
    let e : CacheEntry := ⟨empty.clock.now, .ofSeconds 10, answer 10⟩
    let history : List Event := [.passed (.ofSeconds 3), .stored key e, .found 0 []]
    ∃ s, Run empty history s ∧
      StoresAtMost CacheConfig.default.maxEntries history ∧
      (s.cache.get key s.clock.now).1 = some (answer 7) := by
  intro key answer empty e history
  have hvalid : validity? (empty.removing []).cache.config (answer 10) = some (.ofSeconds 10) := by
    decide
  have hstore : Step (empty.removing []) (.stored key e) _ := .store hvalid
  obtain ⟨s, hrun, hnow⟩ : ∃ s, Run empty history s ∧ s.clock.now = .ofSeconds 3 :=
    ⟨_, ((Run.nil.step (.collect _)).step hstore).step (.pass _ _), by decide⟩
  have hroom : StoresAtMost CacheConfig.default.maxEntries history :=
    ⟨[key], by decide, fun key' e' hmem => by simp_all [history]⟩
  have hfresh : e.isExpired s.clock.now = false := by
    rw [hnow]
    decide
  have haged : e.responseAt s.clock.now = answer 7 := by
    rw [hnow]
    decide
  refine ⟨s, hrun, hroom, ?_⟩
  rcases (run_spares_valid hrun).2 hroom [.passed (.ofSeconds 3)] [.found 0 []] key e rfl with
    hfound | hexpired | hsuperseded | hovertaken
  · rwa [haged] at hfound
  · cases hfresh.symm.trans hexpired
  · simp [Superseded] at hsuperseded
  · simp [Overtaken] at hovertaken

theorem exists_overtaken {config : CacheConfig} {m : Message} {v : Duration}
    (hvalid : validity? config m = some v) (hlong : v ≤ Duration.longest)
    (hroom : 0 < config.maxEntries) (background : Bool) (key : CacheKey) :
    ∃ history s s' e, Run (start config background 0) history s ∧ Step s (.removed 0 key) s' ∧
      s.cache.entry? key = some e ∧ e.isExpired s.clock.now = false ∧
      (s'.cache.get key s'.clock.now).1 = none := by
  let s₀ := start config background 0
  let s₁ : Busy := { s₀ with cache := (s₀.cache.put key m s₀.clock.now).2 }
  let s₂ : Busy := { s₁ with clock := s₁.clock.advance v }
  let s₃ := s₂.removing [key]
  let s₄ : Busy := { s₃ with cache := (s₃.cache.put key m s₃.clock.now).2 }
  -- The first entry, which expires.
  have hstore : Step s₀ (.stored key ⟨s₀.clock.now, v, m⟩) s₁ := .store hvalid
  have hrun₂ : Run s₀ [.passed v, .stored key ⟨s₀.clock.now, v, m⟩] s₂ :=
    (Run.nil.step hstore).step (.pass s₁ v)
  have hmem : (key, ⟨s₀.clock.now, v, m⟩) ∈ s₂.cache.entries := hstore.mem_of_stored hroom
  have hnow : s₂.clock.now - s₀.clock.now = v := by
    show min (0 + v) Duration.longest - 0 = v
    rw [Nat.zero_add, Nat.min_eq_left hlong, Nat.sub_zero]
  have hexpired : s₂.cache.find key s₂.clock.now = .expired := by
    have hold : CacheEntry.isExpired ⟨s₀.clock.now, v, m⟩ s₂.clock.now = true :=
      decide_eq_true (Nat.le_of_eq hnow.symm)
    unfold Cache.find
    rw [hrun₂.consistent.distinct.entry?_eq_some_iff.2 hmem]
    exact if_pos hold
  have hrun₃ := hrun₂.step (.findExpired hexpired)
  -- The second one, which does not.
  have hvalid₃ : validity? s₃.cache.config m = some v := by
    rw [hrun₃.consistent.settings]
    exact hvalid
  have hstore₃ : Step s₃ (.stored key ⟨s₃.clock.now, v, m⟩) s₄ := .store hvalid₃
  have hrun₄ := hrun₃.step hstore₃
  have hmem₄ : (key, ⟨s₃.clock.now, v, m⟩) ∈ s₄.cache.entries := by
    refine hstore₃.mem_of_stored (hrun₃.consistent.room (e := ⟨s₃.clock.now, v, m⟩) ?_)
    exact ⟨[key], hroom, fun key' e hkey => by simp at hkey; grind⟩
  have hfresh : CacheEntry.isExpired ⟨s₃.clock.now, v, m⟩ s₄.clock.now = false := by
    have hlasts := ((validity?_eq_some_iff _ _ _).1 hvalid).aSecond
    refine decide_eq_false fun hover => ?_
    rw [CacheEntry.age, Nat.sub_self] at hover
    exact absurd (Nat.le_trans hlasts hover) (by decide)
  have hunder : s₄.removals = [] ++ ⟨0, [key]⟩ :: [] := rfl
  have hremove : Step s₄ (.removed 0 key) _ := .remove hunder
  have hfound := hrun₄.consistent.distinct.entry?_eq_some_iff.2 hmem₄
  refine ⟨_, s₄, _, _, hrun₄, hremove, hfound, hfresh, ?_⟩
  exact get_erase hrun₄.consistent.distinct key _

/-- A response with ten seconds to live is lost when it is stored again while a
look-up is about to remove the one before. And where there is room for one entry, two
responses count as stored, but only one of them is kept. -/
theorem not_always_retrievable :
    let key (name : String) : CacheKey := ⟨.v4 ⟨#v[192, 0, 2, 53]⟩ 53, name, .internet, .a⟩
    let answer : Message :=
      ⟨⟨0, 0x8180⟩, ⟨0, 1, 0, 0⟩, [], [⟨⟨.root, .a, .internet, 10, 4⟩, .a ⟨#v[192, 0, 2, 1]⟩⟩],
        [], [], 27⟩
    let first := (Cache.empty (CacheConfig.default.setMaxEntries 1) true 0).put (key "n0.") answer 0
    let second := first.2.put (key "n1.") answer 0
    (∃ history s s' e, Run (start .default true 0) history s ∧ Step s (.removed 0 (key "n0.")) s' ∧
      s.cache.entry? (key "n0.") = some e ∧ e.isExpired s.clock.now = false ∧
      (s'.cache.get (key "n0.") s'.clock.now).1 = none) ∧
    first.1 = true ∧ second.1 = true ∧ second.2.size = 1 := by
  intro key answer first second
  have hvalid : validity? .default answer = some (.ofSeconds 10) := by decide
  exact ⟨exists_overtaken hvalid (by decide) (by decide) true (key "n0."), by decide, by decide,
    by decide⟩

end Busy

end StubResolver.Cache
