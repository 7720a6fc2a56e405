import StubResolver.Proofs.Cache.Contents
import StubResolver.Proofs.Lookup.Fallback

/-!
# What a lookup does with the cache

A lookup does to the cache no more than the operations of caches do, and adds no more
than the response that it gives back, once it has heard it. What it gives back from
the cache stays there as it is, and its server has not been asked before. A lookup
that does not use the cache goes the same way whatever is in it.
-/

namespace StubResolver.Lookup

variable {σ α β : Type} {s : Setting σ} {p q : Progress σ} {a b c : Session σ} {cache : Cache}
  {result : LookupResult}

/-! ## Steps that leave the cache alone -/

def Progress.withCache (p : Progress σ) (cache : Cache) : Progress σ :=
  { p with session := { p.session with cache := cache } }

/-- The step goes the same way with any cache, and leaves it as it is. -/
def IgnoresCache (x : Step σ α) : Prop :=
  ∀ p cache, x.run (p.withCache cache) = ((x.run p).1, (x.run p).2.withCache cache)

theorem IgnoresCache.cache_eq {x : Step σ α} (h : IgnoresCache x) (p : Progress σ) :
    (x.run p).2.session.cache = p.session.cache :=
  congrArg (fun ran => ran.2.session.cache) (h p p.session.cache)

theorem IgnoresCache.bind {x : Step σ α} {f : α → Step σ β} (hx : IgnoresCache x)
    (hf : ∀ a, IgnoresCache (f a)) : IgnoresCache (x >>= f) := by
  intro p cache
  rw [run_bind, hx, hf]
  rfl

theorem compositional_ignoresCache : Compositional fun _ x => IgnoresCache (σ := σ) x where
  pure _ _ _ := rfl
  bind := IgnoresCache.bind
  record _ _ _ := rfl

theorem ignoresCache_failure (e : ClientError) (response : Option Message) :
    IgnoresCache (failure s e response) :=
  fun _ _ => rfl

theorem ignoresCache_succeed (m : Message) (server : SocketAddress) (fromCache : Bool) :
    IgnoresCache (succeed m server fromCache : Step σ LookupResult) :=
  fun _ _ => rfl

theorem ignoresCache_isCanceled : IgnoresCache (isCanceled : Step σ Bool) := fun _ _ => rfl

theorem ignoresCache_atServer (server : Option SocketAddress) :
    IgnoresCache (modify fun p => { p with server := server } : Step σ PUnit) :=
  fun _ _ => rfl

theorem ignoresCache_send (protocol : Protocol) (server : SocketAddress) (request : Octets) :
    IgnoresCache (send s protocol server request) := by
  intro p cache
  have hcanceled : (p.withCache cache).isCanceled = p.isCanceled := rfl
  unfold send
  rw [run_bind, run_bind, run_get, run_get]
  dsimp only
  rw [hcanceled]
  split <;> rfl

theorem ignoresCache_attempt (server : NameServer) (number : Nat) :
    IgnoresCache (attempt s server number) :=
  compositional_ignoresCache.attempt (fun _ _ => rfl) ignoresCache_send server number

theorem ignoresCache_lookup (huse : s.config.useCache = false) (servers : List NameServer) :
    IgnoresCache (lookup s servers) := by
  have hcached : ∀ key, cached s key = pure none := fun key => by
    unfold cached
    rw [huse, if_neg Bool.false_ne_true]
  exact compositional_ignoresCache.lookup ignoresCache_failure ignoresCache_succeed
    ignoresCache_isCanceled (fun _ _ => rfl) ignoresCache_send
    (fun hused => by cases huse.symm.trans hused) ignoresCache_atServer
    (fun key => hcached key ▸ compositional_ignoresCache.pure none) servers

/-! ## What a lookup makes of a cache -/

def KeepsReachable (x : Step σ α) : Prop :=
  ∀ p, p.session.cache.Reachable → (x.run p).2.session.cache.Reachable

theorem IgnoresCache.keepsReachable {x : Step σ α} (h : IgnoresCache x) : KeepsReachable x :=
  fun p hcache => (h.cache_eq p).symm ▸ hcache

theorem compositional_keepsReachable : Compositional fun _ x => KeepsReachable (σ := σ) x where
  pure _ _ hcache := hcache
  bind hx hf p hcache := hf _ _ (hx p hcache)
  record _ _ hcache := hcache

theorem keepsReachable_store (key : CacheKey) (m : Message) : KeepsReachable (store s key m) :=
  fun p hcache => hcache.apply (.put key m) ⟨s.surroundings.clock p.session.world⟩

theorem keepsReachable_cached (key : CacheKey) : KeepsReachable (cached s key) := by
  unfold cached
  split
  · exact fun p hcache => hcache.apply (.get key) ⟨s.surroundings.clock p.session.world⟩
  · exact compositional_keepsReachable.pure none

theorem keepsReachable_lookup (servers : List NameServer) : KeepsReachable (lookup s servers) :=
  compositional_keepsReachable.lookup (fun e m => (ignoresCache_failure e m).keepsReachable)
    (fun m server fromCache => (ignoresCache_succeed m server fromCache).keepsReachable)
    ignoresCache_isCanceled.keepsReachable (fun _ hcache => hcache)
    (fun protocol server request => (ignoresCache_send protocol server request).keepsReachable)
    (fun _ => keepsReachable_store) (fun server => (ignoresCache_atServer server).keepsReachable)
    keepsReachable_cached servers

/-! ## What may be stored -/

def Setting.now (s : Setting σ) (a : Session σ) : Instant := s.surroundings.clock a.world

/-- The entry holds what the lookup has heard and gives back. -/
def Stored (s : Setting σ) (config : CacheConfig) (result : LookupResult) (b : Session σ)
    (entry : CacheKey × CacheEntry) : Prop :=
  s.config.useCache = true ∧ ∃ r v, result = .ok r ∧ r.fromCache = false ∧
    Validity config r.message v ∧ entry = (.of r.server s.question, ⟨s.now b, v, r.message⟩)

/-! ## What is heard -/

structure Heard (s : Setting σ) (cache : Cache) (result : LookupResult) (b : Session σ) : Prop where
  heard : ∀ r, result = .ok r → r.fromCache = false
  config : b.cache.config = cache.config
  entries : ∀ entry ∈ b.cache.entries, entry ∈ cache.entries ∨
    Stored s cache.config result b entry

theorem Heard.of_failure {f : LookupFailure} (hsame : b.cache = cache) :
    Heard s cache (.error f) b where
  heard r h := by cases h
  config := congrArg Cache.config hsame
  entries _ hentry := .inl (hsame ▸ hentry)

theorem heard_ok {m : Message} {server : SocketAddress} {trail : Option AuditTrail}
    (r : LookupResponse) (h : (.ok ⟨m, server, false, trail⟩ : LookupResult) = .ok r) :
    r.fromCache = false := by
  obtain rfl := Except.ok.inj h
  rfl

theorem Heard.of_response {m : Message} {server : SocketAddress} {trail : Option AuditTrail}
    (hsame : b.cache = cache) : Heard s cache (.ok ⟨m, server, false, trail⟩) b where
  heard := heard_ok
  config := congrArg Cache.config hsame
  entries _ hentry := .inl (hsame ▸ hentry)

theorem Heard.of_put {m : Message} {server : SocketAddress} {trail : Option AuditTrail}
    (hused : s.config.useCache = true)
    (hput : b.cache = (cache.put (.of server s.question) m (s.now b)).2) :
    Heard s cache (.ok ⟨m, server, false, trail⟩) b := by
  obtain ⟨hconfig, hentries⟩ := cache.put_entries (.of server s.question) m (s.now b)
  rw [← hput] at hconfig hentries
  refine ⟨heard_ok, hconfig, fun entry hentry => (hentries entry hentry).imp_right ?_⟩
  rintro ⟨v, hvalidity, rfl⟩
  exact ⟨hused, _, v, rfl, rfl, (validity?_eq_some_iff _ _ _).1 hvalidity, rfl⟩

theorem heard_endWithDnsError (m : Message) (server : SocketAddress) (p : Progress σ) :
    let ran := (endWithDnsError s m server).run p
    Heard s p.session.cache ran.1 ran.2.session := by
  unfold endWithDnsError
  split
  · exact .of_failure rfl
  · exact .of_response rfl

theorem heard_conclude (tally : Tally) (p : Progress σ) :
    let ran := (conclude s tally).run p
    Heard s p.session.cache ran.1 ran.2.session := by
  unfold conclude
  split
  · exact heard_endWithDnsError _ _ { p with server := some _ }
  · split <;> exact .of_failure rfl

inductive JudgedCache (s : Setting σ) (cache : Cache) (b : Session σ) : Verdict → Prop where
  | finished {result : LookupResult} (heard : Heard s cache result b) :
      JudgedCache s cache b (.finished result)
  | nextServer {m : Message} (same : b.cache = cache) : JudgedCache s cache b (.nextServer m)
  | nextAttempt {e : ClientError} (same : b.cache = cache) : JudgedCache s cache b (.nextAttempt e)

theorem judge_cache (server : SocketAddress) (outcome : Except ClientError Message)
    (p : Progress σ) :
    let judged := (judge s server (.of server s.question) outcome).run p
    JudgedCache s p.session.cache judged.2.session judged.1 := by
  cases appraised s outcome with
  | transient htransient =>
      rw [run_judge_of_transient htransient]
      exact .nextAttempt rfl
  | firm hfirm =>
      rw [run_judge_of_firm hfirm]
      exact .finished (.of_failure rfl)
  | goesOn herror hgoesOn =>
      rw [run_judge_of_goesOn herror hgoesOn]
      exact .nextServer rfl
  | @ends m herror hends =>
      rw [run_judge_of_ends herror hends]
      exact .finished (heard_endWithDnsError m server (p.notingError m))
  | noError hclean =>
      rw [run_judge_of_noError hclean]
      unfold Progress.keeping
      cases huse : s.config.useCache with
      | true => exact .finished (.of_put huse rfl)
      | false => exact .finished (.of_response rfl)

inductive AskedCache (s : Setting σ) (cache : Cache) (b : Session σ) : Outcome → Prop where
  | finished {result : LookupResult} (heard : Heard s cache result b) :
      AskedCache s cache b (.finished result)
  | goOn {tally : Tally} (same : b.cache = cache) : AskedCache s cache b (.goOn tally)

theorem attempts_cache (server : NameServer) (number : Nat) (tally : Tally) (left : Nat)
    (p : Progress σ) :
    let asked := (attempts s server (.of server.address s.question) number tally left).run p
    AskedCache s p.session.cache asked.2.session asked.1 := by
  induction left generalizing number tally p with
  | zero => exact .goOn rfl
  | succ left ih =>
      cases hcanceled : p.isCanceled with
      | true =>
          rw [run_attempts_of_canceled _ _ _ _ _ hcanceled]
          exact .finished (.of_failure rfl)
      | false =>
          have hattempt := (ignoresCache_attempt (s := s) server number).cache_eq p
          rw [run_attempts_of_live _ _ _ _ _ hcanceled]
          generalize (attempt s server number).run p = tried at hattempt ⊢
          have hjudge := judge_cache (s := s) server.address tried.1 tried.2
          rw [hattempt] at hjudge
          dsimp only at hjudge ⊢
          generalize (judge s server.address (.of server.address s.question) tried.1).run tried.2 =
            judged at hjudge ⊢
          obtain ⟨verdict, r⟩ := judged
          cases hjudge with
          | finished heard => exact .finished heard
          | nextServer same => exact .goOn same
          | nextAttempt same =>
              rw [← same]
              exact ih (number + 1) (tally.add _) r

theorem attempts_queries (server : NameServer) (number : Nat) (tally : Tally) (left : Nat)
    (hserver : p.server = some server.address) :
    let asked := (attempts s server (.of server.address s.question) number tally left).run p
    ∃ made, asked.2.session.queries = p.session.queries ++ made ∧
      ∀ query ∈ made, query.server = server.address := by
  obtain ⟨log, outcome, q, hrun, -, -, hproper, hcourse, -⟩ :=
    attempts_left (s := s) server number tally left hserver
  rw [hrun]
  refine ⟨_, hcourse.calls.queries_eq, fun query hquery => ?_⟩
  obtain ⟨call, hcall, rfl⟩ := List.mem_map.1 hquery
  obtain ⟨a, ha, hcall⟩ := List.mem_flatMap.1 hcall
  obtain ⟨rfl, hone⟩ := hproper a ha
  exact (hone.query_of_mem hcall).1

/-! ## What is served -/

/-- The response is an entry as it has aged,
which stays. No call was made to its server. -/
def Served (s : Setting σ) (a : Session σ) (r : LookupResponse) (b : Session σ) : Prop :=
  s.config.useCache = true ∧ ∃ e made, (CacheKey.of r.server s.question, e) ∈ a.cache.entries ∧
    (CacheKey.of r.server s.question, e) ∈ b.cache.entries ∧ e.isExpired (s.now b) = false ∧
    r.message = e.responseAt (s.now b) ∧ b.queries = a.queries ++ made ∧
    ∀ query ∈ made, query.server ≠ r.server

structure CacheUse (s : Setting σ) (a : Session σ) (result : LookupResult) (b : Session σ) :
    Prop where
  config : b.cache.config = a.cache.config
  entries : ∀ entry ∈ b.cache.entries, entry ∈ a.cache.entries ∨
    Stored s a.cache.config result b entry
  served : ∀ r, result = .ok r → r.fromCache = true → Served s a r b

theorem Heard.cacheUse (h : Heard s a.cache result b) : CacheUse s a result b where
  config := h.config
  entries := h.entries
  served r hr hcached := by cases (h.heard r hr).symm.trans hcached

theorem CacheUse.after_asking {server : SocketAddress} {made : List Query}
    (hconfig : b.cache.config = a.cache.config) (hentries : b.cache.entries ⊆ a.cache.entries)
    (hqueries : b.queries = a.queries ++ made) (hmade : ∀ query ∈ made, query.server = server)
    (habsent : s.config.useCache = true →
      ∀ entry ∈ b.cache.entries, entry.1 ≠ .of server s.question)
    (h : CacheUse s b result c) : CacheUse s a result c where
  config := h.config.trans hconfig
  entries := by
    intro entry hentry
    refine (h.entries entry hentry).imp (fun hold => hentries hold) fun hnew => ?_
    rwa [hconfig] at hnew
  served := by
    intro r hr hcached
    obtain ⟨hused, e, made', hheld, hkept, hfresh, hmessage, hqueries', hmade'⟩ :=
      h.served r hr hcached
    refine ⟨hused, e, made ++ made', hentries hheld, hkept, hfresh, hmessage, ?_, ?_⟩
    · rw [hqueries', hqueries, List.append_assoc]
    · refine List.forall_mem_append.2 ⟨fun query hquery => ?_, hmade'⟩
      rw [hmade query hquery]
      rintro rfl
      exact habsent hused _ hheld rfl

inductive Consulted (s : Setting σ) (server : SocketAddress) (b : Session σ) :
    Option Message → Prop where
  | hit {e : CacheEntry} (used : s.config.useCache = true)
      (held : (CacheKey.of server s.question, e) ∈ b.cache.entries)
      (fresh : e.isExpired (s.now b) = false) : Consulted s server b (some (e.responseAt (s.now b)))
  | miss (absent : s.config.useCache = true →
      ∀ entry ∈ b.cache.entries, entry.1 ≠ .of server s.question) : Consulted s server b none

theorem consulted_cached (server : SocketAddress) (p : Progress σ) :
    ∃ cache, cache.config = p.session.cache.config ∧ cache.entries ⊆ p.session.cache.entries ∧
      ∃ found, (cached s (.of server s.question)).run p =
          (found, { p with session := { p.session with cache := cache } }) ∧
        Consulted s server { p.session with cache := cache } found := by
  let key := CacheKey.of server s.question
  unfold cached
  cases huse : s.config.useCache with
  | false =>
      refine ⟨p.session.cache, rfl, fun _ h => h, none, rfl, .miss fun h => ?_⟩
      cases huse.symm.trans h
  | true =>
      obtain ⟨hconfig, hentries⟩ := p.session.cache.get_entries key (s.now p.session)
      refine ⟨(p.session.cache.get key (s.now p.session)).2, hconfig, hentries,
        (p.session.cache.get key (s.now p.session)).1, rfl, ?_⟩
      cases hfound : (p.session.cache.get key (s.now p.session)).1 with
      | none => exact .miss fun _ => Cache.absent_of_get hfound
      | some m =>
          obtain ⟨e, hheld, hfresh, rfl⟩ := Cache.mem_of_get hfound
          exact .hit huse hheld hfresh

theorem walk_cacheUse (tally : Tally) (servers : List NameServer) (p : Progress σ) :
    let ran := (walk s tally servers).run p
    CacheUse s p.session ran.1 ran.2.session := by
  induction servers generalizing tally p with
  | nil => exact (heard_conclude tally p).cacheUse
  | cons server rest ih =>
      cases hcanceled : p.isCanceled with
      | true =>
          rw [run_walk_of_canceled _ _ _ hcanceled]
          exact Heard.cacheUse (.of_failure rfl)
      | false =>
          obtain ⟨cache, hconfig, hentries, found, hrun, hfound⟩ :=
            consulted_cached (s := s) server.address { p with server := some server.address }
          rw [run_walk_of_live _ _ _ hcanceled]
          dsimp only
          rw [hrun]
          cases hfound with
          | @hit e used held fresh =>
              refine ⟨hconfig, fun entry hentry => .inl (hentries hentry), fun r hr _ => ?_⟩
              obtain rfl := Except.ok.inj hr
              exact ⟨used, e, [], hentries held, held, fresh, rfl, (List.append_nil _).symm,
                by simp⟩
          | miss absent =>
              let p' : Progress σ :=
                ⟨{ p.session with cache := cache }, p.token, p.trail, some server.address⟩
              have hcache := attempts_cache (s := s) server 0 tally (s.config.retries + 1) p'
              obtain ⟨made, hqueries, hmade⟩ := attempts_queries (s := s) (p := p') server 0 tally
                (s.config.retries + 1) rfl
              dsimp only
              generalize (attempts s server (.of server.address s.question) 0 tally
                (s.config.retries + 1)).run p' = asked at hcache hqueries ⊢
              obtain ⟨outcome, q⟩ := asked
              -- The server has been asked, so what is served later on is for another one.
              cases hcache with
              | finished heard =>
                  exact CacheUse.after_asking (b := p'.session) hconfig hentries
                    (List.append_nil _).symm (by simp) absent heard.cacheUse
              | @goOn next same =>
                  have same : q.session.cache = cache := same
                  rw [← same] at hconfig hentries absent
                  exact (ih next q).after_asking hconfig hentries hqueries hmade absent

theorem lookup_cacheUse (servers : List NameServer) (p : Progress σ) :
    let ran := (lookup s servers).run p
    CacheUse s p.session ran.1 ran.2.session := by
  by_cases hservers : servers = []
  · subst hservers
    exact Heard.cacheUse (.of_failure rfl)
  · rw [run_lookup_of_servers hservers]
    exact walk_cacheUse .empty (s.order servers) (p.noting _)

/-! ## Where a response was heard -/

def Hears (s : Setting σ) (calls : List (MadeCall σ)) (server : SocketAddress) (m : Message) :
    Prop :=
  ∃ call ∈ calls, call.query.server = server ∧ (∃ id, requestOctets s id = .ok call.query.request) ∧
    reading s (call.answer s) = .ok m

theorem lookup_hears {servers : List NameServer} {r : LookupResponse}
    (hresult : ((lookup s servers).run p).1 = .ok r) (hheard : r.fromCache = false) :
    ∃ calls, Makes s p calls ((lookup s servers).run p).2 ∧ Hears s calls r.server r.message := by
  obtain ⟨visits, htranscript⟩ := lookup_transcript s servers p
  refine ⟨_, htranscript.course.calls, ?_⟩
  have hsourced := htranscript.ended.sourced
  rw [hresult] at hsourced
  cases hsourced with
  | cached => cases hheard
  | @heard a m attempt outcome =>
      have hproper := htranscript.proper_of_mem attempt
      obtain ⟨call, hlast, hreading, -⟩ := hproper.source outcome
      have hcall := List.mem_of_getLast? hlast
      obtain ⟨hserver, hrequest⟩ := hproper.query_of_mem hcall
      exact ⟨call, List.mem_flatMap.2 ⟨a, attempt, hcall⟩, hserver, ⟨a.id, hrequest⟩, hreading⟩

/-! ## Lookups that end at their first server -/

section

variable (server : NameServer) (rest : List NameServer) {m : Message}

def Progress.consulting (p : Progress σ) (s : Setting σ) (server : NameServer)
    (rest : List NameServer) : Progress σ :=
  let key := CacheKey.of server.address s.question
  { p.noting (.resolvedServers ((server :: rest).map NameServer.address)) with
    server := some server.address
    session := { p.session with cache := (p.session.cache.get key (s.now p.session)).2 } }

theorem run_lookup_of_cached (horder : s.config.randomOrder = false)
    (huse : s.config.useCache = true) (hlive : p.isCanceled = false) {found : Option Message}
    (hfound : (p.session.cache.get (.of server.address s.question) (s.now p.session)).1 = found) :
    (lookup s (server :: rest)).run p =
      let q := p.consulting s server rest
      match found with
      | some m => (succeed m server.address true).run (q.noting (.cacheHit server.address))
      | none =>
        match (attempts s server (.of server.address s.question) 0 .empty
          (s.config.retries + 1)).run q with
        | (.finished result, r) => (result, r)
        | (.goOn next, r) => (walk s next rest).run r := by
  have hcached : (cached s (.of server.address s.question)).run
      { p.noting (.resolvedServers ((server :: rest).map NameServer.address)) with
        server := some server.address } = (found, p.consulting s server rest) := by
    unfold cached
    rw [huse, if_pos rfl, ← hfound]
    rfl
  have hstarted :
      (p.noting (.resolvedServers ((server :: rest).map NameServer.address))).isCanceled = false :=
    hlive
  rw [run_lookup_of_servers (List.cons_ne_nil _ _), order_eq_self horder,
    run_walk_of_live _ _ _ hstarted]
  dsimp only
  rw [hcached]
  cases found <;> rfl

theorem lookup_of_hit (horder : s.config.randomOrder = false) (huse : s.config.useCache = true)
    (hlive : p.isCanceled = false)
    (hfound : (p.session.cache.get (.of server.address s.question) (s.now p.session)).1 = some m) :
    let ran := (lookup s (server :: rest)).run p
    (∃ trail, ran.1 = .ok ⟨m, server.address, true, trail⟩) ∧
      ran.2.session = (p.consulting s server rest).session := by
  rw [run_lookup_of_cached server rest horder huse hlive hfound]
  exact ⟨⟨_, rfl⟩, rfl⟩

theorem lookup_of_miss (horder : s.config.randomOrder = false) (huse : s.config.useCache = true)
    (hlive : p.isCanceled = false)
    (hfound : (p.session.cache.get (.of server.address s.question) (s.now p.session)).1 = none)
    {octets response : Octets}
    (hrequest : requestOctets s (s.surroundings.requestId p.session.idsUsed) = .ok octets)
    (hdecoded : Message.ofOctets s.registry response = .ok m) (hwhole : m.isTruncated = false)
    (hcode : m.responseCode = .noError) :
    let call := firstCall s server 0 octets (p.consulting s server rest)
    let ran := (lookup s (server :: rest)).run p
    call.answer s = .ok response →
      (∃ trail, ran.1 = .ok ⟨m, server.address, false, trail⟩) ∧
        ran.2.session = { (call.after s).session with
          cache := ((call.after s).session.cache.put (.of server.address s.question) m
            (s.now (call.after s).session)).2 } := by
  intro call ran hanswer
  have hreading : reading s (call.answer s) = .ok m := by
    rw [reading_of_answer hanswer, hdecoded]
    rfl
  have hattempt : (attempt s server 0).run (p.consulting s server rest) =
      (.ok m, call.after s) := by
    obtain ⟨hrun, -⟩ := run_attempt_of_ok (p := p.consulting s server rest) server 0 hrequest
    rw [← hreading]
    refine hrun ?_
    rintro ⟨-, -, m', hreading', htruncated⟩
    obtain rfl := Except.ok.inj (hreading.symm.trans hreading')
    cases hwhole.symm.trans htruncated
  have herror := ResponseCode.isError_eq_false_iff.2 hcode
  have hconsulting : (p.consulting s server rest).isCanceled = false := hlive
  unfold ran
  rw [run_lookup_of_cached server rest horder huse hlive hfound]
  dsimp only
  rw [run_attempts_of_live _ _ _ _ _ hconsulting, hattempt]
  dsimp only
  rw [run_judge_of_noError herror, Progress.keeping, huse, if_pos rfl]
  exact ⟨⟨_, rfl⟩, rfl⟩

end

end StubResolver.Lookup
