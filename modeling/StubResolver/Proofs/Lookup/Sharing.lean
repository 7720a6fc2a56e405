import Mathlib.Data.List.Induction
import StubResolver.Proofs.Cache.Key
import StubResolver.Proofs.Lookup.CacheUse
import StubResolver.Proofs.Transport.Checking

/-!
# Lookups that share a cache

Lookups come one after the other, by whatever clients and over whatever transports,
and time passes between them. What the cache holds was heard by one of these lookups,
from the server that it is kept for, when the clock showed the time that it is kept
with.
-/

namespace StubResolver

open Lookup Name Text

variable {σ : Type}

structure SharedLookup (σ : Type) where
  client : Client
  surroundings : Surroundings σ
  servers : List NameServer
  question : Question
  token : Token

namespace SharedLookup

/-- All lookups tell the time of the cache by one clock. -/
def setting (l : SharedLookup σ) (clock : σ → Instant) : Setting σ :=
  ⟨{ l.surroundings with clock := clock }, l.client.config, l.client.registry, l.question⟩

def run (l : SharedLookup σ) (clock : σ → Instant) (a : Session σ) : LookupResult × Session σ :=
  l.client.queryServers { l.surroundings with clock := clock } l.servers l.question l.token a

end SharedLookup

inductive SharedOp (σ : Type) where
  | lookup (l : SharedLookup σ)
  | pass (d : Duration) (change : σ → σ)
  | beginSweep
  | finishSweep
  | dropSweep

def SharedOp.apply (clock : σ → Instant) (op : SharedOp σ) (a : Session σ) : Session σ :=
  match op with
  | .lookup l => (l.run clock a).2
  | .pass d change => { a with world := change a.world, time := a.time + d }
  | .beginSweep => { a with cache := a.cache.beginSweep }
  | .finishSweep => { a with cache := a.cache.finishSweep (clock a.world) }
  | .dropSweep => { a with cache := a.cache.dropSweep }

structure Sharing (σ : Type) where
  clock : σ → Instant
  config : CacheConfig
  background : Bool
  world : σ

/-- Servers that answer at once, and always the
same, in a world that only tells the time. -/
def Surroundings.steady (response : Octets) : Surroundings Instant where
  query := fun _ _ request _ world => (⟨false, .now (checkResponse request response)⟩, world)
  clock := id
  requestId := fun _ => 0
  shuffle := id

namespace Sharing

def run (h : Sharing σ) (ops : List (SharedOp σ)) : Session σ :=
  ops.foldl (fun a op => op.apply h.clock a)
    (.start h.world (.empty h.config h.background (h.clock h.world)))

theorem run_concat (h : Sharing σ) (ops : List (SharedOp σ)) (op : SharedOp σ) :
    h.run (ops ++ [op]) = op.apply h.clock (h.run ops) := by
  unfold run
  rw [List.foldl_append]
  rfl

def StoredBy (h : Sharing σ) (before : List (SharedOp σ)) (l : SharedLookup σ)
    (entry : CacheKey × CacheEntry) : Prop :=
  let told := l.run h.clock (h.run before)
  Stored (l.setting h.clock) h.config told.1 told.2 entry

structure Accounted (h : Sharing σ) (ops : List (SharedOp σ)) (a : Session σ) : Prop where
  config : a.cache.config = h.config
  entries : ∀ entry ∈ a.cache.entries, ∃ before l after,
    ops = before ++ .lookup l :: after ∧ h.StoredBy before l entry

section

variable {h : Sharing σ} {ops : List (SharedOp σ)} {op : SharedOp σ} {a b : Session σ}

theorem Accounted.keep (ha : Accounted h ops a) (op : SharedOp σ)
    (hconfig : b.cache.config = a.cache.config) (hentries : b.cache.entries ⊆ a.cache.entries) :
    Accounted h (ops ++ [op]) b where
  config := hconfig.trans ha.config
  entries entry hentry := by
    obtain ⟨before, l, after, rfl, hstored⟩ := ha.entries entry (hentries hentry)
    exact ⟨before, l, after ++ [op], by simp, hstored⟩

theorem Accounted.lookup (ha : Accounted h ops (h.run ops)) (l : SharedLookup σ) :
    Accounted h (ops ++ [.lookup l]) (l.run h.clock (h.run ops)).2 := by
  have huse := lookup_cacheUse (s := l.setting h.clock) l.servers
    (l.client.initial l.token (h.run ops))
  refine ⟨huse.config.trans ha.config, fun entry hentry => ?_⟩
  rcases huse.entries entry hentry with hold | hnew
  · obtain ⟨before, l', after, rfl, hstored⟩ := ha.entries entry hold
    exact ⟨before, l', after ++ [.lookup l], by simp, hstored⟩
  · have hnew : Stored (l.setting h.clock) (h.run ops).cache.config _ _ entry := hnew
    rw [ha.config] at hnew
    exact ⟨ops, l, [], rfl, hnew⟩

theorem accounted (h : Sharing σ) (ops : List (SharedOp σ)) : Accounted h ops (h.run ops) := by
  -- From the right, as a run goes on at its end.
  induction ops using List.reverseRecOn with
  | nil => exact ⟨rfl, fun entry hentry => by cases hentry⟩
  | append_singleton ops op ih =>
      rw [run_concat]
      cases op with
      | lookup l => exact ih.lookup l
      | pass d change => exact ih.keep _ rfl (List.Subset.refl _)
      | beginSweep =>
          have hsweep := Cache.shrinks_beginSweep (fun _ => False) (h.run ops).cache
          exact ih.keep _ hsweep.config hsweep.sublist.subset
      | finishSweep =>
          obtain ⟨hconfig, hentries⟩ := (h.run ops).cache.finishSweep_entries
            (h.clock (h.run ops).world)
          exact ih.keep _ hconfig hentries
      | dropSweep =>
          have hsweep := Cache.shrinks_dropSweep (fun _ => False) (h.run ops).cache
          exact ih.keep _ hsweep.config hsweep.sublist.subset

end

/-- The response repeats what an earlier lookup of the same name, class and type has
heard from the server, as it has aged since that lookup ended. -/
structure Repeats (h : Sharing σ) (ops : List (SharedOp σ)) (l : SharedLookup σ)
    (r : LookupResponse) (before : List (SharedOp σ)) (earlier : SharedLookup σ) (m : Message) :
    Prop where
  past : ∃ after, ops = before ++ .lookup earlier :: after
  text : earlier.question.name.canonicalText = l.question.name.canonicalText
  /-- The labels in a row, with dots between
  them, up to the case of ASCII letters. -/
  octets : lowerOctets earlier.question.name.dotted = lowerOctets l.question.name.dotted
  recordClass : earlier.question.recordClass = l.question.recordClass
  type : earlier.question.type = l.question.type
  given : ∃ trail, (earlier.run h.clock (h.run before)).1 = .ok ⟨m, r.server, false, trail⟩
  heard : ∃ finish calls, finish.session = (earlier.run h.clock (h.run before)).2 ∧
    Makes (earlier.setting h.clock) (earlier.client.initial earlier.token (h.run before)) calls
      finish ∧
    Hears (earlier.setting h.clock) calls r.server m
  noError : m.responseCode = .noError
  whole : m.isTruncated = false
  /-- Both times are those of the cache. -/
  aged :
    let passed := (h.clock (l.run h.clock (h.run ops)).2.world -
      h.clock (earlier.run h.clock (h.run before)).2.world).seconds
    passed < 0x80000000 ∧ r.message = m.aged passed.toUInt32 ∧
      r.message.records.map (fun record => record.ttl.toInt) =
        m.records.map (fun record => record.ttl.toInt - (passed : Int)) ∧
      ∀ record ∈ r.message.records, 1 ≤ record.ttl.toInt
  /-- The entry stays as it is, none is added, and the server is not asked. -/
  calm : ∃ v made,
    let key : CacheKey :=
      ⟨r.server, l.question.name.canonicalText, l.question.recordClass, l.question.type⟩
    let entry := (key, CacheEntry.mk (h.clock (earlier.run h.clock (h.run before)).2.world) v m)
    entry ∈ (h.run ops).cache.entries ∧
      entry ∈ (l.run h.clock (h.run ops)).2.cache.entries ∧
      (l.run h.clock (h.run ops)).2.cache.entries ⊆ (h.run ops).cache.entries ∧
      (l.run h.clock (h.run ops)).2.queries = (h.run ops).queries ++ made ∧
      ∀ query ∈ made, query.server ≠ r.server

theorem aged_of_validity {config : CacheConfig} {e : CacheEntry} {now : Instant}
    (h : Validity config e.response e.validFor) (hminimum : config.minimumTtl = none)
    (hfresh : e.isExpired now = false) :
    let passed := (now - e.storedAt).seconds
    passed < 0x80000000 ∧ e.responseAt now = e.response.aged passed.toUInt32 ∧
      (e.responseAt now).records.map (fun record => record.ttl.toInt) =
        e.response.records.map (fun record => record.ttl.toInt - (passed : Int)) ∧
      ∀ record ∈ (e.responseAt now).records, 1 ≤ record.ttl.toInt := by
  intro passed
  have hage : now - e.storedAt < e.validFor := Nat.lt_of_not_le (of_decide_eq_false hfresh)
  obtain ⟨⟨record, hrecord⟩, hlater⟩ := h.lt_ttl hminimum hage
  have hpassed : passed < 0x80000000 := by
    have hshort := hlater record hrecord
    have hhigh := record.ttl.toInt_lt
    omega
  have haged : e.responseAt now = e.response.aged passed.toUInt32 := by
    have hmin : min (e.age now).seconds 0xFFFFFFFF = passed :=
      Nat.min_eq_left (Nat.le_of_lt (Nat.lt_trans hpassed (by decide)))
    unfold CacheEntry.responseAt
    rw [hmin]
  have httls : (e.responseAt now).records.map (fun record => record.ttl.toInt) =
      e.response.records.map fun record => record.ttl.toInt - (passed : Int) := by
    rw [e.responseAt_eq_after now, Message.ttls_after]
    refine List.map_congr_left fun record hrecord => Int.max_eq_right ?_
    have hleft := hlater record hrecord
    omega
  refine ⟨hpassed, haged, httls, fun record hrecord => ?_⟩
  have hmem := List.mem_map_of_mem (f := fun record => record.ttl.toInt) hrecord
  rw [httls] at hmem
  obtain ⟨original, horiginal, httl⟩ := List.mem_map.1 hmem
  have hleft := hlater original horiginal
  omega

/-! ## Runs at a single server -/

section

variable {client : Client} {request response : Octets} {m : Message} {v : Duration}

theorem steady_served (server : NameServer) (question : Question) (config : CacheConfig)
    (hroom : 0 < config.maxEntries) (horder : client.config.randomOrder = false)
    (huse : client.config.useCache = true)
    (hchecked : checkResponse request response = .ok response)
    (hdecoded : Message.ofOctets client.registry response = .ok m)
    (hvalid : Validity config m v) :
    let l : SharedLookup Instant := ⟨client, .steady response, [server], question, .unheld⟩
    let h : Sharing Instant := ⟨id, config, false, 0⟩
    requestOctets (l.setting id) 0 = .ok request →
      (h.run [.lookup l]).cache.entries = [(.of server.address question, ⟨0, v, m⟩)] ∧
        ∀ d, d < v → ∃ trail, (l.run id (h.run [.lookup l, .pass 0 (· + d)])).1 =
          .ok ⟨m.after d.seconds, server.address, true, trail⟩ := by
  intro l h hrequest
  let key := CacheKey.of server.address question
  obtain ⟨-, hsession⟩ := lookup_of_miss (s := l.setting id)
    (p := client.initial .unheld (h.run [])) server [] horder huse rfl rfl hrequest hdecoded
    hvalid.whole hvalid.noError hchecked
  have hcache : (h.run [.lookup l]).cache = ((Cache.empty config false 0).put key m 0).2 :=
    congrArg Session.cache hsession
  have hworld : (h.run [.lookup l]).world = (0 : Nat) := congrArg Session.world hsession
  have hentries : (h.run [.lookup l]).cache.entries = [(key, ⟨0, v, m⟩)] := by
    rw [hcache, Cache.put_of_validity hvalid, (Cache.entries_startSweepIfDue _ _).2,
      Cache.entries_insert_of_room (c := .empty config false 0) hroom]
    rfl
  refine ⟨hentries, fun d hd => ?_⟩
  let a := h.run [.lookup l, .pass 0 (· + d)]
  have hnow : (l.setting id).now a = d := (congrArg (· + d) hworld).trans (Nat.zero_add d)
  have hdistinct : a.cache.KeysDistinct := by
    change ((h.run [.lookup l]).cache.entries.map Prod.fst).Nodup
    rw [hentries]
    simp
  have hfound : (a.cache.get key ((l.setting id).now a)).1 = some (m.after d.seconds) := by
    refine hdistinct.get_eq_some_iff.2 ⟨⟨0, v, m⟩, ?_, ?_, ?_⟩
    · exact hentries ▸ List.mem_singleton_self _
    · rw [hnow]
      exact Nat.not_le.2 hd
    · rw [hnow]
      exact (CacheEntry.responseAt_eq_after ⟨0, v, m⟩ d).symm
  exact (lookup_of_hit (s := l.setting id) (p := client.initial .unheld a) server [] horder huse rfl
    hfound).1

def atFirst : Sharing Instant := ⟨id, .default, false, 0⟩

/-- A lookup of addresses of the root, for which
its only server always gives that response. -/
def rootLookup (response : Octets) : SharedLookup Instant where
  client := ⟨[], { LookupConfig.default with randomOrder := false }, .empty⟩
  surroundings := .steady response
  servers := [.ofAddress (.v4 ⟨#v[192, 0, 2, 1]⟩ 53)]
  question := ⟨.root, .a, .internet⟩
  token := .unheld

def rootAnswer (bits : UInt16) (type : RecordType) : Message :=
  ⟨⟨0, bits⟩, ⟨1, 1, 0, 0⟩, [⟨.root, type, .internet⟩],
    [⟨⟨.root, .a, .internet, 30, 4⟩, .unknown .a [192, 0, 2, 7]⟩], [], [], 32⟩

def rootKey : CacheKey := .of (.v4 ⟨#v[192, 0, 2, 1]⟩ 53) ⟨.root, .a, .internet⟩

theorem ofOctets_rootAnswer (bits : UInt16) (type : RecordType) (hsize : response.size = 32)
    (hstart : StandsAt response 0 ((rootAnswer bits type).header.octets ++
      (rootAnswer bits type).counts.octets))
    (hquestion : StandsAt response 12 ([0] ++ Question.fixedOctets ⟨.root, type, .internet⟩))
    (hrecord : StandsAt response 17
      ([0] ++ RecordHeader.fixedOctets ⟨.root, .a, .internet, 30, 4⟩ ++ [192, 0, 2, 7])) :
    Message.ofOctets .empty response = .ok (rootAnswer bits type) := by
  obtain ⟨hfixed, hdata⟩ := standsAt_append_iff.1 hrecord
  obtain ⟨howner, hfixed⟩ := standsAt_append_iff.1 hfixed
  obtain ⟨hname, hquestion⟩ := standsAt_append_iff.1 hquestion
  have hend : 28 + 4 ≤ response.size := Nat.le_of_eq hsize.symm
  have hkeeps := (standsAt_iff_extract rfl hend).1 hdata
  exact Message.Framed.ofOctets_eq {
    start := hstart
    questions := rfl
    answers := rfl
    authorities := rfl
    additionals := rfl
    tiles := ⟨17, 32, 32, 32, .cons ⟨13, occupies_root hname, hquestion, rfl⟩ (.nil _),
      .cons ⟨28, ⟨18, occupies_root howner, hfixed, rfl⟩,
        (Registry.decodes_empty_iff hend).2 (congrArg (RecordData.unknown .a) hkeeps.symm), rfl,
        hend⟩ (.nil _),
      .nil _, .nil _, hend⟩
    size := hsize.symm }

theorem root_served (hchecked : checkResponse #[0, 0] response = .ok response)
    (hdecoded : Message.ofOctets .empty response = .ok m) (hvalid : Validity .default m v) :
    let l := rootLookup response
    (atFirst.run [.lookup l]).cache.entries = [(rootKey, ⟨0, v, m⟩)] ∧
      ∀ d, d < v → ∃ trail, (l.run id (atFirst.run [.lookup l, .pass 0 (· + d)])).1 =
        .ok ⟨m.after d.seconds, rootKey.server, true, trail⟩ := by
  intro l
  let request : Request := ⟨⟨0, 0x100⟩, ⟨.root, .a, .internet⟩, .ofRequest 4096 false⟩
  have hfits : request.octets.length ≤ Composer.requestCapacity := by decide
  have hrequest : requestOctets (l.setting id) 0 = .ok request.octets.toArray :=
    Request.toOctets_of_valid (r := request) rfl hfits
  have hid : messageId? request.octets.toArray = messageId? #[0, 0] := by decide
  rw [← checkResponse_of_id_eq hid] at hchecked
  unfold atFirst rootKey l rootLookup
  exact steady_served _ _ _ (by decide) rfl rfl hchecked hdecoded hvalid hrequest

end

/-! ## What is served -/

theorem repeats_of_served {h : Sharing σ} (hminimum : h.config.minimumTtl = none)
    {ops : List (SharedOp σ)} {l : SharedLookup σ} {r : LookupResponse}
    (hr : (l.run h.clock (h.run ops)).1 = .ok r) (hcached : r.fromCache = true) :
    ∃ before earlier m, h.Repeats ops l r before earlier m := by
  have huse := lookup_cacheUse (s := l.setting h.clock) l.servers
    (l.client.initial l.token (h.run ops))
  obtain ⟨-, e, made, hheld, hkept, hfresh, hmessage, hqueries, hmade⟩ := huse.served r hr hcached
  -- The entry was stored by an earlier lookup, which gave back what it holds.
  obtain ⟨before, earlier, after, hops, hstored⟩ := (h.accounted ops).entries _ hheld
  obtain ⟨-, ⟨m, server, _, trail⟩, v, hresult, rfl, hvalid, hentry⟩ := hstored
  obtain ⟨hkey, rfl⟩ := Prod.mk.inj hentry
  obtain ⟨rfl, htext, hclass, htype⟩ := CacheKey.mk.inj hkey
  obtain ⟨calls, hmakes, hhears⟩ := lookup_hears (s := earlier.setting h.clock)
    (p := earlier.client.initial earlier.token (h.run before)) hresult rfl
  obtain ⟨hpassed, haged, httls, halive⟩ := aged_of_validity hvalid hminimum hfresh
  rw [← hmessage] at haged httls halive
  have hunchanged : (l.run h.clock (h.run ops)).2.cache.entries ⊆ (h.run ops).cache.entries := by
    intro entry hentry
    rcases huse.entries entry hentry with hold | ⟨-, r', v', hr', hheard, -⟩
    · exact hold
    · obtain rfl := Except.ok.inj (hr.symm.trans hr')
      cases hcached.symm.trans hheard
  exact ⟨before, earlier, m, {
    past := ⟨after, hops⟩
    text := htext.symm
    octets := (canonicalText_eq_iff _ _).1 htext.symm
    recordClass := hclass.symm
    type := htype.symm
    given := ⟨trail, hresult⟩
    heard := ⟨_, calls, rfl, hmakes, hhears⟩
    noError := hvalid.noError
    whole := hvalid.whole
    aged := ⟨hpassed, haged, httls, halive⟩
    calm := ⟨v, made, hheld, hkept, hunchanged, hqueries, hmade⟩ }⟩

/-- What the cache serves for a question was heard from the same server by an earlier
lookup of the same name, class and type, and has aged since; it has had no error code
and was not cut short, like all that the cache holds. A lookup that does not use the
cache neither reads nor changes it. -/
theorem served_from_cache (h : Sharing σ) (hminimum : h.config.minimumTtl = none)
    (ops : List (SharedOp σ)) :
    (∀ entry ∈ (h.run ops).cache.entries,
      entry.2.response.responseCode = .noError ∧ entry.2.response.isTruncated = false) ∧
    ∀ l : SharedLookup σ,
      let told := l.run h.clock (h.run ops)
      (∀ r, told.1 = .ok r → r.fromCache = true →
        ∃ before earlier m, h.Repeats ops l r before earlier m) ∧
      (l.client.config.useCache = false → told.2.cache = (h.run ops).cache ∧
        ∀ cache, l.run h.clock { h.run ops with cache := cache } =
          (told.1, { told.2 with cache := cache })) := by
  refine ⟨fun entry hentry => ?_, fun l => ⟨fun r => repeats_of_served hminimum, fun huse => ?_⟩⟩
  · obtain ⟨before, l, after, -, hstored⟩ := (h.accounted ops).entries entry hentry
    obtain ⟨-, r, v, -, -, hvalid, rfl⟩ := hstored
    exact ⟨hvalid.noError, hvalid.whole⟩
  · have hignores := ignoresCache_lookup (s := l.setting h.clock) huse l.servers
    refine ⟨hignores.cache_eq (l.client.initial l.token (h.run ops)), fun cache => ?_⟩
    have hrun := hignores (l.client.initial l.token (h.run ops)) cache
    exact congrArg (fun ran => (ran.1, ran.2.session)) hrun

/-- A record with 30 seconds to live is served from
the cache three seconds after it was heard. -/
theorem served_three_seconds_later :
    let response : Octets := #[0, 0, 0x80, 0, 0, 1, 0, 1, 0, 0, 0, 0,
      0, 0, 1, 0, 1, 0, 0, 1, 0, 1, 0, 0, 0, 30, 0, 4, 192, 0, 2, 7]
    let l := rootLookup response
    let ops := [.lookup l, .pass 0 (· + .ofSeconds 3)]
    atFirst.config.minimumTtl = none ∧ ∃ r, (l.run atFirst.clock (atFirst.run ops)).1 = .ok r ∧
      r.fromCache = true ∧ ∃ before earlier m, atFirst.Repeats ops l r before earlier m := by
  intro response l ops
  have hdecoded : Message.ofOctets .empty response = .ok (rootAnswer 0x8000 .a) :=
    ofOctets_rootAnswer _ _ rfl (by decide) (by decide) (by decide)
  have hvalid : Validity .default (rootAnswer 0x8000 .a) (.ofSeconds 30) :=
    (validity?_eq_some_iff _ _ _).1 (by decide)
  obtain ⟨-, hserved⟩ := root_served (by decide) hdecoded hvalid
  obtain ⟨trail, hresult⟩ := hserved (.ofSeconds 3) (by decide)
  obtain ⟨-, hlookups⟩ := atFirst.served_from_cache rfl ops
  exact ⟨rfl, _, hresult, rfl, (hlookups l).1 _ hresult rfl⟩

end Sharing

end StubResolver
