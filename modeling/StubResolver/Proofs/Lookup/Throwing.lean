import StubResolver.Proofs.Cache.Contents
import StubResolver.Proofs.Lookup.CacheUse
import StubResolver.Proofs.Lookup.Running

/-!
# Responses with an error code as results or as failures

Two lookups that differ in no more than whether a response with an error code makes
them fail go side by side: they are at the same progress until one of them ends, and
then both end. What the one returns with an error code is what the other fails with.
-/

namespace StubResolver.Lookup

variable {σ : Type}

def Setting.throwing (s : Setting σ) (throws : Bool) : Setting σ :=
  { s with config := { s.config with throwDnsErrors := throws } }

@[simp] theorem Setting.question_throwing (s : Setting σ) (throws : Bool) :
    (s.throwing throws).question = s.question := rfl

@[simp] theorem Setting.retries_throwing (s : Setting σ) (throws : Bool) :
    (s.throwing throws).config.retries = s.config.retries := rfl

/-- What a lookup tells that returns a response
with an error code, and one that fails with it. -/
inductive Told (question : Question) : LookupResult → LookupResult → Prop where
  | same {result : LookupResult}
      (clean : ∀ r, result = .ok r → r.message.responseCode = .noError) :
      Told question result result
  | thrown {m : Message} {server : SocketAddress} {trail trail' : Option AuditTrail}
      (error : m.responseCode ≠ .noError) :
      Told question (.ok ⟨m, server, false, trail⟩)
        (.error ⟨.dnsError m.responseCode, question, some server, trail', some m⟩)

structure EndAlike (s : Setting σ) (returned thrown : LookupResult × Progress σ) : Prop where
  told : Told s.question returned.1 thrown.1
  session : thrown.2.session = returned.2.session

def Tally.RemembersErrors (tally : Tally) : Prop :=
  ∀ server m, tally.lastError = some (server, m) → m.responseCode ≠ .noError

section

variable {s : Setting σ} {p : Progress σ} {m : Message} {server : SocketAddress} {tally : Tally}

/-! ## Ends -/

theorem endAlike_fail (e : ClientError) (p : Progress σ) :
    EndAlike s ((fail s e).run p) ((fail s e).run p) :=
  ⟨.same nofun, rfl⟩

theorem endAlike_succeed (hclean : m.responseCode = .noError) (server : SocketAddress)
    (fromCache : Bool) (p : Progress σ) :
    EndAlike s ((succeed m server fromCache).run p) ((succeed m server fromCache).run p) := by
  refine ⟨.same fun r hr => ?_, rfl⟩
  rw [run_succeed] at hr
  obtain rfl := Except.ok.inj hr
  exact hclean

theorem endAlike_endWithDnsError (herror : m.responseCode ≠ .noError)
    (hserver : p.server = some server) :
    EndAlike s ((endWithDnsError (s.throwing false) m server).run p)
      ((endWithDnsError (s.throwing true) m server).run p) := by
  refine ⟨?_, rfl⟩
  change Told s.question (.ok ⟨m, server, false, _⟩)
    (.error ⟨.dnsError m.responseCode, s.question, p.server, _, some m⟩)
  rw [hserver]
  exact .thrown herror

theorem endAlike_conclude (htally : tally.RemembersErrors) (p : Progress σ) :
    EndAlike s ((conclude (s.throwing false) tally).run p)
      ((conclude (s.throwing true) tally).run p) := by
  unfold conclude
  split
  · rename_i server m hlast
    exact endAlike_endWithDnsError (p := { p with server := some server }) (htally server m hlast)
      rfl
  · split
    · exact endAlike_fail .connectionTimeout p
    · exact endAlike_fail .noConnection p

/-! ## Attempts -/

inductive JudgedAlike (s : Setting σ) (p : Progress σ) :
    Verdict × Progress σ → Verdict × Progress σ → Prop where
  | finished {returned thrown : LookupResult × Progress σ} (alike : EndAlike s returned thrown) :
      JudgedAlike s p (.finished returned.1, returned.2) (.finished thrown.1, thrown.2)
  | nextServer {m : Message} {q : Progress σ} (error : m.responseCode ≠ .noError) :
      JudgedAlike s p (.nextServer m, q) (.nextServer m, q)
  | nextAttempt {e : ClientError} {q : Progress σ} (still : q.server = p.server) :
      JudgedAlike s p (.nextAttempt e, q) (.nextAttempt e, q)

theorem judge_alike (key : CacheKey) (outcome : Except ClientError Message)
    (hserver : p.server = some server) :
    JudgedAlike s p ((judge (s.throwing false) server key outcome).run p)
      ((judge (s.throwing true) server key outcome).run p) := by
  cases appraised s outcome with
  | @transient e htransient =>
      rw [run_judge_of_transient htransient, run_judge_of_transient htransient]
      exact .nextAttempt rfl
  | @firm e hfirm =>
      rw [run_judge_of_firm hfirm, run_judge_of_firm hfirm]
      exact .finished (endAlike_fail e p)
  | goesOn herror hgoesOn =>
      rw [run_judge_of_goesOn (s := s.throwing false) herror hgoesOn,
        run_judge_of_goesOn (s := s.throwing true) herror hgoesOn]
      exact .nextServer (ResponseCode.isError_iff.1 herror)
  | @ends m herror hends =>
      have hcode := ResponseCode.isError_iff.1 herror
      rw [run_judge_of_ends (s := s.throwing false) herror hends,
        run_judge_of_ends (s := s.throwing true) herror hends]
      exact .finished (endAlike_endWithDnsError (p := p.notingError m) hcode hserver)
  | noError herror =>
      have hclean := ResponseCode.isError_eq_false_iff.1 herror
      rw [run_judge_of_noError herror, run_judge_of_noError herror]
      exact .finished (endAlike_succeed hclean server false _)

inductive AskedAlike (s : Setting σ) :
    Outcome × Progress σ → Outcome × Progress σ → Prop where
  | finished {returned thrown : LookupResult × Progress σ} (alike : EndAlike s returned thrown) :
      AskedAlike s (.finished returned.1, returned.2) (.finished thrown.1, thrown.2)
  | goOn {next : Tally} {q : Progress σ} (errors : next.RemembersErrors) :
      AskedAlike s (.goOn next, q) (.goOn next, q)

theorem attempts_alike (server : NameServer) (key : CacheKey) (number : Nat) (left : Nat)
    (htally : tally.RemembersErrors) (hserver : p.server = some server.address) :
    AskedAlike s ((attempts (s.throwing false) server key number tally left).run p)
      ((attempts (s.throwing true) server key number tally left).run p) := by
  induction left generalizing number tally p with
  | zero => exact .goOn htally
  | succ left ih =>
      cases hcanceled : p.isCanceled with
      | true =>
          rw [run_attempts_of_canceled _ _ _ _ _ hcanceled,
            run_attempts_of_canceled _ _ _ _ _ hcanceled]
          exact .finished (endAlike_fail .canceled p)
      | false =>
          -- An attempt does not look at the flag, so both have made the same one.
          obtain ⟨a, q, ha⟩ := attempted (s := s) server number hcanceled
          have hq := ha.still.trans hserver
          have hrun : ∀ throws,
              (attempt (s.throwing throws) server number).run p = (a.outcome, q) := fun _ => ha.run
          have hjudged := judge_alike (s := s) key a.outcome hq
          rw [run_attempts_of_live _ _ _ _ _ hcanceled, run_attempts_of_live _ _ _ _ _ hcanceled,
            hrun, hrun]
          dsimp only
          generalize (judge (s.throwing false) server.address key a.outcome).run q = returned
            at hjudged ⊢
          generalize (judge (s.throwing true) server.address key a.outcome).run q = thrown
            at hjudged ⊢
          cases hjudged with
          | finished alike => exact .finished alike
          | nextServer error =>
              refine .goOn fun address m hlast => ?_
              cases hlast
              exact error
          | nextAttempt still => exact ih (number + 1) htally (still.trans hq)

/-! ## The walk over the servers -/

theorem walk_alike (servers : List NameServer) (htally : tally.RemembersErrors)
    (hcache : p.session.cache.NoErrors) :
    EndAlike s ((walk (s.throwing false) tally servers).run p)
      ((walk (s.throwing true) tally servers).run p) := by
  -- What the cache serves is the same for both, so it must not be a response with an error code.
  induction servers generalizing tally p with
  | nil => exact endAlike_conclude htally p
  | cons server rest ih =>
      cases hcanceled : p.isCanceled with
      | true =>
          rw [run_walk_of_canceled _ _ _ hcanceled, run_walk_of_canceled _ _ _ hcanceled]
          exact endAlike_fail .canceled p
      | false =>
          obtain ⟨cache, -, hentries, found, hrun, hfound⟩ :=
            consulted_cached (s := s) server.address { p with server := some server.address }
          have hcache' : cache.NoErrors := hcache.of_subset hentries
          have hrun : ∀ throws, (cached (s.throwing throws) (.of server.address s.question)).run
              { p with server := some server.address } = (found, _) := fun _ => hrun
          rw [run_walk_of_live _ _ _ hcanceled, run_walk_of_live _ _ _ hcanceled]
          simp only [Setting.question_throwing, Setting.retries_throwing, hrun]
          cases hfound with
          | @hit e used held fresh =>
              exact endAlike_succeed (hcache'.responseAt held _) server.address true _
          | miss absent =>
              let q : Progress σ :=
                ⟨{ p.session with cache := cache }, p.token, p.trail, some server.address⟩
              have hasked := attempts_alike (s := s) (p := q) server
                (.of server.address s.question) 0 (s.config.retries + 1) htally rfl
              have hkept := attempts_cache (s := s.throwing false) server 0 tally
                (s.config.retries + 1) q
              simp only [Setting.question_throwing] at hkept
              dsimp only
              generalize (attempts (s.throwing false) server (.of server.address s.question) 0 tally
                (s.config.retries + 1)).run q = returned at hasked hkept ⊢
              generalize (attempts (s.throwing true) server (.of server.address s.question) 0 tally
                (s.config.retries + 1)).run q = thrown at hasked ⊢
              cases hasked with
              | finished alike => exact alike
              | goOn errors =>
                  cases hkept with
                  | goOn same => exact ih errors (same ▸ hcache')

theorem lookup_alike (servers : List NameServer) (hcache : p.session.cache.NoErrors) :
    EndAlike s ((lookup (s.throwing false) servers).run p)
      ((lookup (s.throwing true) servers).run p) := by
  by_cases hservers : servers = []
  · subst hservers
    exact endAlike_fail .noServers p
  · have hempty : Tally.empty.RemembersErrors := nofun
    rw [run_lookup_of_servers hservers, run_lookup_of_servers hservers]
    exact walk_alike (s.order servers) (p := p.noting _) hempty hcache

end

end StubResolver.Lookup

namespace StubResolver

open Lookup

def Client.throwing (c : Client) (throws : Bool) : Client :=
  { c with config := { c.config with throwDnsErrors := throws } }

theorem Client.cache_reachable {σ : Type} (c : Client) (surroundings : Surroundings σ)
    (servers : List NameServer) (question : Question) (token : Token) {session : Session σ}
    (hcache : session.cache.Reachable) :
    (c.queryServers surroundings servers question token session).2.cache.Reachable :=
  let s : Setting σ := ⟨surroundings, c.config, c.registry, question⟩
  keepsReachable_lookup (s := s) servers (c.initial token session) hcache

/-- To throw errors changes nothing but how a response with an error code is handed
over. The calls and all else that a lookup leaves are the same, and so is what it
gives, but where it would return a response with an error code, it fails with that
code, that message, and that server. -/
theorem Client.queryServers_throwing {σ : Type} (c : Client) (surroundings : Surroundings σ)
    (servers : List NameServer) (question : Question) (token : Token) (session : Session σ)
    (hcache : session.cache.Reachable) :
    let query (throws : Bool) :=
      (c.throwing throws).queryServers surroundings servers question token session
    (query true).2 = (query false).2 ∧
      (∀ r, (query false).1 = .ok r → r.message.responseCode ≠ .noError →
        ∃ trail, (query true).1 = .error ⟨.dnsError r.message.responseCode, question,
          some r.server, trail, some r.message⟩) ∧
      ((∀ r, (query false).1 = .ok r → r.message.responseCode = .noError) →
        (query true).1 = (query false).1) := by
  intro query
  let s : Setting σ := ⟨surroundings, c.config, c.registry, question⟩
  obtain ⟨htold, hsession⟩ := lookup_alike (s := s) (p := c.initial token session) servers
    hcache.noErrors
  have htold : Told question (query false).1 (query true).1 := htold
  refine ⟨hsession, ?_⟩
  generalize (query false).1 = returned at htold ⊢
  generalize (query true).1 = thrown at htold ⊢
  cases htold with
  | same clean => exact ⟨fun r hr herror => (herror (clean r hr)).elim, fun _ => rfl⟩
  | thrown error =>
      refine ⟨fun r hr _ => ?_, fun hclean => (error (hclean _ rfl)).elim⟩
      obtain rfl := Except.ok.inj hr
      exact ⟨_, rfl⟩

/-- After an earlier lookup, the first server refuses, and the second one does not
answer: the refusal that the one lookup returns is what the other fails with. -/
theorem Client.queryServers_throwing_refused :
    let config : LookupConfig := { LookupConfig.default with retries := 0, randomOrder := false }
    let client : Client := ⟨[], config, .empty⟩
    let refusing : NameServer := .ofAddress (.v4 ⟨#v[192, 0, 2, 1]⟩ 53)
    let silent : NameServer := .ofAddress (.v4 ⟨#v[192, 0, 2, 2]⟩ 53)
    let surroundings : Surroundings Unit :=
      { query := fun _ server _ _ world =>
          (⟨false, if server = refusing.address
            then .now (.ok #[0, 0, 0x80, 0x05, 0, 0, 0, 0, 0, 0, 0, 0]) else .never⟩, world)
        clock := fun _ => 0
        requestId := fun _ => 0
        shuffle := id }
    let question : Question := ⟨.root, .a, .internet⟩
    let session := (client.queryServers surroundings [silent] question .unheld
      (.start () (.empty .default false 0))).2
    let query (throws : Bool) :=
      (client.throwing throws).queryServers surroundings [refusing, silent] question .unheld session
    session.cache.Reachable ∧ (query true).2 = (query false).2 ∧
      (query false).2.queries.length = 3 ∧
      ∃ r trail, (query false).1 = .ok r ∧ r.message.responseCode = ⟨5⟩ ∧
        (query true).1 = .error ⟨.dnsError r.message.responseCode, question,
          some refusing.address, trail, some r.message⟩ := by
  intro config client refusing silent surroundings question session query
  have hreachable : session.cache.Reachable :=
    client.cache_reachable surroundings [silent] question .unheld (.empty _ _ _)
  obtain ⟨hsession, hthrown, -⟩ := Client.queryServers_throwing client surroundings
    [refusing, silent] question .unheld session hreachable
  have hrefused : (query false).1.toOption.map
      (fun r => (r.message.responseCode, r.server)) = some (⟨5⟩, refusing.address) := by
    decide +kernel
  refine ⟨hreachable, hsession, by decide +kernel, ?_⟩
  cases hresult : (query false).1 with
  | error f => simp [hresult, Except.toOption] at hrefused
  | ok r =>
      rw [hresult] at hrefused
      obtain ⟨hcode, hserver⟩ := Prod.mk.inj (Option.some.inj hrefused)
      obtain ⟨trail, hfailed⟩ := hthrown r hresult (by rw [hcode]; decide)
      exact ⟨r, trail, rfl, hcode, hserver ▸ hfailed⟩

end StubResolver
