import Mathlib.Data.List.Nodup
import StubResolver.Cache.Basic

/-!
# What the cache operations do to the entries

Whatever is not a new entry only takes entries away. As no two entries have the same
key, looking up finds the one entry there is, and sweeping by keys takes away what
has expired and nothing else.
-/

namespace StubResolver.Cache

def KeysDistinct (c : Cache) : Prop := (c.entries.map Prod.fst).Nodup

structure Shrinks (droppable : CacheKey × CacheEntry → Prop) (c c' : Cache) : Prop where
  config : c'.config = c.config
  sublist : c'.entries.Sublist c.entries
  kept : ∀ entry ∈ c.entries, ¬ droppable entry → entry ∈ c'.entries

def ExpiredAt (now : Instant) (entry : CacheKey × CacheEntry) : Prop :=
  entry.2.validFor ≤ entry.2.age now

instance (now : Instant) : DecidablePred (ExpiredAt now) := fun entry =>
  inferInstanceAs (Decidable (entry.2.validFor ≤ entry.2.age now))

theorem isExpired_iff {e : CacheEntry} {now : Instant} {key : CacheKey} :
    e.isExpired now = true ↔ ExpiredAt now (key, e) := by
  simp [CacheEntry.isExpired, ExpiredAt]

theorem ExpiredAt.mono {now later : Instant} {entry : CacheKey × CacheEntry}
    (h : ExpiredAt now entry) (hle : now ≤ later) : ExpiredAt later entry :=
  Nat.le_trans h (Nat.sub_le_sub_right hle _)

theorem Shrinks.keysDistinct {droppable : CacheKey × CacheEntry → Prop} {c c' : Cache}
    (h : Shrinks droppable c c') (hdistinct : c.KeysDistinct) : c'.KeysDistinct :=
  List.Nodup.sublist (h.sublist.map Prod.fst) hdistinct

theorem Shrinks.of_entries_eq {droppable : CacheKey × CacheEntry → Prop} {c c' : Cache}
    (hconfig : c'.config = c.config) (hentries : c'.entries = c.entries) :
    Shrinks droppable c c' where
  config := hconfig
  sublist := by rw [← hentries]
  kept := by
    intro entry hentry _
    rwa [hentries]

theorem Shrinks.of_filter {droppable : CacheKey × CacheEntry → Prop} {c c' : Cache}
    {keep : CacheKey × CacheEntry → Bool} (hconfig : c'.config = c.config)
    (hentries : c'.entries = c.entries.filter keep)
    (hkeep : ∀ entry ∈ c.entries, ¬ droppable entry → keep entry = true) :
    Shrinks droppable c c' where
  config := hconfig
  sublist := by
    rw [hentries]
    exact List.filter_sublist
  kept := by
    intro entry hentry hdroppable
    rw [hentries]
    exact List.mem_filter.2 ⟨hentry, hkeep entry hentry hdroppable⟩

/-! ## Looking up -/

theorem KeysDistinct.eq_of_mem {c : Cache} (hdistinct : c.KeysDistinct) {key : CacheKey}
    {e e' : CacheEntry} (h : (key, e) ∈ c.entries) (h' : (key, e') ∈ c.entries) : e = e' := by
  have hpair := List.inj_on_of_nodup_map hdistinct h h' rfl
  exact (Prod.mk.inj hpair).2

theorem mem_of_lookup {c : Cache} {key : CacheKey} {e : CacheEntry} (h : c.entry? key = some e) :
    (key, e) ∈ c.entries := by
  unfold entry? at h
  obtain ⟨before, after, hentries, -⟩ := List.lookup_eq_some_iff.1 h
  rw [hentries]
  simp

theorem KeysDistinct.entry?_eq_some_iff {c : Cache} (hdistinct : c.KeysDistinct)
    {key : CacheKey} {e : CacheEntry} : c.entry? key = some e ↔ (key, e) ∈ c.entries := by
  refine ⟨mem_of_lookup, fun hmem => ?_⟩
  cases hentry : c.entry? key with
  | none =>
      have habsent := List.lookup_eq_none_iff.1 hentry (key, e) hmem
      simp at habsent
  | some e' => rw [hdistinct.eq_of_mem (mem_of_lookup hentry) hmem]

theorem KeysDistinct.get_eq_some_iff {c : Cache} (hdistinct : c.KeysDistinct) {key : CacheKey}
    {now : Instant} {r : Message} :
    (c.get key now).1 = some r ↔
      ∃ e, (key, e) ∈ c.entries ∧ ¬ ExpiredAt now (key, e) ∧ r = e.responseAt now := by
  simp only [← hdistinct.entry?_eq_some_iff, ← isExpired_iff]
  unfold get find
  cases c.entry? key with
  | none => simp
  | some e =>
      cases hexpired : e.isExpired now with
      | true => simp [hexpired]
      | false => simp [hexpired, eq_comm (a := r)]

theorem isExpired_of_find {c : Cache} {key : CacheKey} {e : CacheEntry} {now : Instant}
    (h : c.find key now = .expired)
    (hdistinct : c.KeysDistinct) (hmem : (key, e) ∈ c.entries) : ExpiredAt now (key, e) := by
  unfold Cache.find at h
  rw [hdistinct.entry?_eq_some_iff.2 hmem] at h
  dsimp only at h
  split at h
  · rename_i hexpired
    exact isExpired_iff.1 hexpired
  · cases h

/-! ## Taking away -/

theorem shrinks_erase (c : Cache) (key : CacheKey) :
    Shrinks (fun entry => entry.1 = key) c (c.erase key) :=
  .of_filter rfl rfl fun _ _ hkey => decide_eq_true hkey

theorem mem_erase {c : Cache} {key : CacheKey} {entry : CacheKey × CacheEntry} :
    entry ∈ (c.erase key).entries ↔ entry ∈ c.entries ∧ entry.1 ≠ key := by
  simp [erase]

theorem get_erase {c : Cache} (hdistinct : c.KeysDistinct) (key : CacheKey) (now : Instant) :
    ((c.erase key).get key now).1 = none := by
  have hdistinct' := (c.shrinks_erase key).keysDistinct hdistinct
  rw [Option.eq_none_iff_forall_not_mem]
  intro r hr
  obtain ⟨e, hmem, -⟩ := hdistinct'.get_eq_some_iff.1 hr
  exact (mem_erase.1 hmem).2 rfl

theorem foldl_erase (keys : List CacheKey) (c : Cache) :
    keys.foldl erase c =
      { c with entries := c.entries.filter fun entry => !keys.contains entry.1 } := by
  induction keys generalizing c with
  | nil =>
      have hall : (c.entries.filter fun _ => true) = c.entries := by simp
      simp [hall]
  | cons key keys ih =>
      rw [List.foldl_cons, ih, erase]
      simp [List.filter_filter, Bool.and_comm]

theorem KeysDistinct.mem_expiredKeys_iff {c : Cache} (hdistinct : c.KeysDistinct)
    {now : Instant} {entry : CacheKey × CacheEntry} (hentry : entry ∈ c.entries) :
    entry.1 ∈ c.expiredKeys now ↔ ExpiredAt now entry := by
  simp only [expiredKeys, List.mem_map, List.mem_filter]
  constructor
  · rintro ⟨⟨key, e⟩, ⟨hmem, hexpired⟩, rfl⟩
    obtain rfl := hdistinct.eq_of_mem hmem hentry
    exact isExpired_iff.1 hexpired
  · intro hexpired
    exact ⟨entry, ⟨hentry, isExpired_iff.2 hexpired⟩, rfl⟩

theorem KeysDistinct.cleanup_eq {c : Cache} (hdistinct : c.KeysDistinct) (now : Instant) :
    c.cleanup now =
      ((c.entries.filter fun entry => ExpiredAt now entry).length,
        { c with entries := c.entries.filter fun entry => ¬ ExpiredAt now entry }) := by
  have hkept : (c.entries.filter fun entry => !(c.expiredKeys now).contains entry.1) =
      c.entries.filter fun entry => ¬ ExpiredAt now entry := by
    apply List.filter_congr
    intro entry hentry
    simp [← hdistinct.mem_expiredKeys_iff hentry]
  have hlength : (c.expiredKeys now).length =
      (c.entries.filter fun entry => ExpiredAt now entry).length := List.length_map _
  simp only [cleanup, foldl_erase, hkept, hlength]

theorem KeysDistinct.shrinks_cleanup {c : Cache} (hdistinct : c.KeysDistinct) (now : Instant) :
    Shrinks (ExpiredAt now) c (c.cleanup now).2 := by
  rw [hdistinct.cleanup_eq]
  exact .of_filter rfl rfl fun _ _ hexpired => decide_eq_true hexpired

/-! ## Sweeps -/

theorem entries_startSweepIfDue (c : Cache) (now : Instant) :
    (c.startSweepIfDue now).config = c.config ∧
      (c.startSweepIfDue now).entries = c.entries := by
  unfold startSweepIfDue
  split <;> exact ⟨rfl, rfl⟩

theorem shrinks_beginSweep (droppable : CacheKey × CacheEntry → Prop) (c : Cache) :
    Shrinks droppable c c.beginSweep := by
  unfold beginSweep
  split <;> exact .of_entries_eq rfl rfl

theorem shrinks_dropSweep (droppable : CacheKey × CacheEntry → Prop) (c : Cache) :
    Shrinks droppable c c.dropSweep := by
  unfold dropSweep
  split <;> exact .of_entries_eq rfl rfl

theorem KeysDistinct.shrinks_finishSweep {c : Cache} (hdistinct : c.KeysDistinct)
    (now : Instant) : Shrinks (ExpiredAt now) c (c.finishSweep now) := by
  unfold finishSweep
  split
  · exact .of_entries_eq rfl rfl
  · have hcleanup := hdistinct.shrinks_cleanup now
    exact ⟨hcleanup.config, hcleanup.sublist, hcleanup.kept⟩

theorem shrinks_get (c : Cache) (key : CacheKey) (now : Instant)
    (hdistinct : c.KeysDistinct) : Shrinks (ExpiredAt now) c (c.get key now).2 := by
  unfold get find
  cases hentry : c.entry? key with
  | none => exact .of_entries_eq rfl rfl
  | some e =>
      cases hexpired : e.isExpired now with
      | false =>
          have hsweep := c.entries_startSweepIfDue now
          simpa [hexpired] using .of_entries_eq hsweep.1 hsweep.2
      | true =>
          simp only [hexpired, if_true]
          refine ⟨rfl, (c.shrinks_erase key).sublist, ?_⟩
          rintro ⟨key', e'⟩ hmem hvalid
          refine mem_erase.2 ⟨hmem, ?_⟩
          rintro rfl
          rw [hdistinct.eq_of_mem hmem (mem_of_lookup hentry)] at hvalid
          exact hvalid (isExpired_iff.1 hexpired)

theorem entries_get_of_fresh {c : Cache} {key : CacheKey} {now : Instant}
    (h : c.find key now ≠ .expired) :
    (c.get key now).2.config = c.config ∧ (c.get key now).2.entries = c.entries := by
  unfold Cache.get
  cases hfind : c.find key now with
  | nothing => exact ⟨rfl, rfl⟩
  | expired => exact (h hfind).elim
  | hit response => exact c.entries_startSweepIfDue now

/-! ## A new entry -/

theorem entries_insert_of_room {c : Cache} {key : CacheKey} {e : CacheEntry}
    (hroom : (c.erase key).entries.length < c.config.maxEntries) :
    c.insert key e = { c with entries := (key, e) :: (c.erase key).entries } := by
  unfold insert
  simp only [if_pos hroom]

theorem insert_of_full {c : Cache} {key : CacheKey} {e : CacheEntry}
    (hfull : ¬ (c.erase key).entries.length < c.config.maxEntries) : c.insert key e = c :=
  if_neg hfull

theorem entries_put {c : Cache} {m : Message} {v : Duration} (h : validity? c.config m = some v)
    (key : CacheKey) (now : Instant) :
    (c.put key m now).2.entries = (c.insert key ⟨now, v, m⟩).entries := by
  unfold put
  rw [h]
  exact (entries_startSweepIfDue _ now).2

theorem KeysDistinct.nodup_cons_erase {c : Cache} (hdistinct : c.KeysDistinct) (key : CacheKey) :
    (key :: (c.erase key).entries.map Prod.fst).Nodup := by
  rw [List.nodup_cons]
  refine ⟨?_, (c.shrinks_erase key).keysDistinct hdistinct⟩
  rw [List.mem_map]
  rintro ⟨entry, hmem, rfl⟩
  exact (mem_erase.1 hmem).2 rfl

theorem KeysDistinct.cons {c : Cache} (hdistinct : c.KeysDistinct) (key : CacheKey)
    (e : CacheEntry) : KeysDistinct { c with entries := (key, e) :: (c.erase key).entries } :=
  hdistinct.nodup_cons_erase key

theorem KeysDistinct.put {c : Cache} (hdistinct : c.KeysDistinct) (key : CacheKey) (m : Message)
    (now : Instant) : (c.put key m now).2.KeysDistinct := by
  cases hvalidity : validity? c.config m with
  | none =>
      rw [Cache.put, hvalidity]
      exact hdistinct
  | some v =>
      unfold KeysDistinct
      rw [entries_put hvalidity]
      by_cases hroom : (c.erase key).entries.length < c.config.maxEntries
      · rw [entries_insert_of_room hroom]
        exact hdistinct.cons key _
      · rw [insert_of_full hroom]
        exact hdistinct

theorem KeysDistinct.room {c : Cache} (hdistinct : c.KeysDistinct) {key : CacheKey}
    {keys : List CacheKey} (hlength : keys.length ≤ c.config.maxEntries) (hkey : key ∈ keys)
    (hentries : ∀ entry ∈ c.entries, entry.1 ∈ keys) :
    (c.erase key).entries.length < c.config.maxEntries := by
  have hsubset : key :: (c.erase key).entries.map Prod.fst ⊆ keys := by
    rw [List.cons_subset]
    refine ⟨hkey, fun key' hkey' => ?_⟩
    obtain ⟨entry, hmem, rfl⟩ := List.mem_map.1 hkey'
    exact hentries entry (mem_erase.1 hmem).1
  have hcount := List.Nodup.length_le_of_subset (hdistinct.nodup_cons_erase key) hsubset
  rw [List.length_cons, List.length_map] at hcount
  exact Nat.lt_of_lt_of_le hcount hlength

/-! ## Where entries come from -/

theorem get_entries (c : Cache) (key : CacheKey) (now : Instant) :
    (c.get key now).2.config = c.config ∧ (c.get key now).2.entries ⊆ c.entries := by
  unfold get
  cases c.find key now with
  | nothing => exact ⟨rfl, List.Subset.refl _⟩
  | expired => exact ⟨rfl, fun _ hentry => (mem_erase.1 hentry).1⟩
  | hit response =>
      obtain ⟨hconfig, hentries⟩ := c.entries_startSweepIfDue now
      exact ⟨hconfig, by rw [hentries]; exact List.Subset.refl _⟩

theorem mem_of_get {c : Cache} {key : CacheKey} {now : Instant} {m : Message}
    (h : (c.get key now).1 = some m) :
    ∃ e, (key, e) ∈ (c.get key now).2.entries ∧ e.isExpired now = false ∧ m = e.responseAt now := by
  unfold get find at h ⊢
  cases hentry : c.entry? key with
  | none => simp [hentry] at h
  | some e =>
      cases hexpired : e.isExpired now with
      | true => simp [hentry, hexpired] at h
      | false =>
          obtain rfl : e.responseAt now = m := by simpa [hentry, hexpired] using h
          refine ⟨e, ?_, hexpired, rfl⟩
          simp only [hexpired, Bool.false_eq_true, if_false]
          rw [(c.entries_startSweepIfDue now).2]
          exact mem_of_lookup hentry

theorem absent_of_get {c : Cache} {key : CacheKey} {now : Instant}
    (h : (c.get key now).1 = none) : ∀ entry ∈ (c.get key now).2.entries, entry.1 ≠ key := by
  unfold get find at h ⊢
  cases hentry : c.entry? key with
  | none =>
      intro entry hmem heq
      have habsent := List.lookup_eq_none_iff.1 hentry entry hmem
      simp [heq] at habsent
  | some e =>
      cases hexpired : e.isExpired now with
      | true =>
          simp only [hexpired, if_true]
          exact fun entry hmem => (mem_erase.1 hmem).2
      | false => simp [hentry, hexpired] at h

theorem finishSweep_entries (c : Cache) (now : Instant) :
    (c.finishSweep now).config = c.config ∧ (c.finishSweep now).entries ⊆ c.entries := by
  unfold finishSweep
  split
  · exact ⟨rfl, List.Subset.refl _⟩
  · simp only [cleanup, foldl_erase, true_and]
    exact List.filter_subset_self _

theorem insert_entries (c : Cache) (key : CacheKey) (e : CacheEntry) :
    (c.insert key e).config = c.config ∧
      ∀ entry ∈ (c.insert key e).entries, entry ∈ c.entries ∨ entry = (key, e) := by
  by_cases hroom : (c.erase key).entries.length < c.config.maxEntries
  · rw [entries_insert_of_room hroom]
    refine ⟨rfl, fun entry hentry => ?_⟩
    rcases List.mem_cons.1 hentry with rfl | hentry
    · exact .inr rfl
    · exact .inl (mem_erase.1 hentry).1
  · rw [insert_of_full hroom]
    exact ⟨rfl, fun _ hentry => .inl hentry⟩

theorem put_entries (c : Cache) (key : CacheKey) (m : Message) (now : Instant) :
    (c.put key m now).2.config = c.config ∧
      ∀ entry ∈ (c.put key m now).2.entries, entry ∈ c.entries ∨
        ∃ validFor, validity? c.config m = some validFor ∧ entry = (key, ⟨now, validFor, m⟩) := by
  unfold put
  cases hvalidity : validity? c.config m with
  | none => exact ⟨rfl, fun _ hentry => .inl hentry⟩
  | some validFor =>
      obtain ⟨hconfig, hentries⟩ :=
        (c.insert key ⟨now, validFor, m⟩).entries_startSweepIfDue now
      obtain ⟨hconfig', hentries'⟩ := c.insert_entries key ⟨now, validFor, m⟩
      refine ⟨hconfig.trans hconfig', fun entry hentry => ?_⟩
      rw [hentries] at hentry
      exact (hentries' entry hentry).imp_right fun heq => ⟨validFor, rfl, heq⟩

end StubResolver.Cache
