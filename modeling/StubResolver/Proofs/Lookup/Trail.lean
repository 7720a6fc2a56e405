import StubResolver.Proofs.Lookup.CacheUse
import StubResolver.Proofs.Lookup.Grammar
import StubResolver.Proofs.Lookup.Running

/-!
# What the audit trail tells of a lookup

The trail of a lookup is a word of the grammar, and the calls that it announces are
those that are made. Only a lookup that is canceled may leave out the last of them,
which asks again over TCP.
-/

namespace StubResolver.Lookup

variable {σ : Type} {s : Setting σ} {p q r : Progress σ} {c : MadeCall σ}
  {events events' : AuditTrail} {result : LookupResult}

def LookupResult.size? (result : LookupResult) : Option Nat :=
  result.toOption.map fun r => r.message.size

def LookupResult.trail? : LookupResult → Option AuditTrail
  | .ok r => r.trail
  | .error f => f.trail

/-- From one progress to the other the trail gains these
events, and the calls that they announce are made. -/
structure Tells (p : Progress σ) (events : AuditTrail) (q : Progress σ) : Prop where
  trail : q.trail = p.trail.map (· ++ events)
  calls : ∃ made, q.session.queries = p.session.queries ++ made ∧
    events.calls = made.map Query.call

/-- The token is triggered before the last call that the events announce. -/
structure TellsTooMuch (p : Progress σ) (events : AuditTrail) (q : Progress σ) : Prop where
  trail : q.trail = p.trail.map (· ++ events)
  calls : ∃ made server, q.session.queries = p.session.queries ++ made ∧
    events.calls = made.map Query.call ++ [(server, .tcp)]

structure Ends (p : Progress σ) (events : AuditTrail) (result : LookupResult)
    (q : Progress σ) : Prop where
  trail : q.trail = p.trail.map (· ++ (events ++ [.ended (LookupResult.size? result)]))
  handed : LookupResult.trail? result = q.trail
  calls : ∃ made, q.session.queries = p.session.queries ++ made ∧
    (events.calls = made.map Query.call ∨ LookupResult.IsCanceled result ∧
      ∃ server, events.calls = made.map Query.call ++ [(server, .tcp)])

/-! ## Events one after the other -/

theorem AuditTrail.calls_append (events events' : AuditTrail) :
    AuditTrail.calls (events ++ events') = events.calls ++ events'.calls :=
  List.filterMap_append

theorem Tells.of_quiet (htrail : q.trail = p.trail)
    (hqueries : q.session.queries = p.session.queries) : Tells p [] q where
  trail := by
    rw [htrail]
    cases p.trail <;> simp
  calls := ⟨[], by rw [hqueries, List.append_nil], rfl⟩

theorem Tells.refl (p : Progress σ) : Tells p [] p := .of_quiet rfl rfl

theorem tells_noting (event : AuditEvent) (hquiet : event.call? = none) (p : Progress σ) :
    Tells p [event] (p.noting event) where
  trail := rfl
  calls := ⟨[], (List.append_nil _).symm, by simp [AuditTrail.calls, hquiet]⟩

theorem map_append_append (trail : Option AuditTrail) (events events' : AuditTrail) :
    (trail.map (· ++ events)).map (· ++ events') = trail.map (· ++ (events ++ events')) := by
  rw [Option.map_map]
  simp only [Function.comp_def, List.append_assoc]

theorem Tells.trans (h : Tells p events q) (h' : Tells q events' r) :
    Tells p (events ++ events') r where
  trail := by rw [h'.trail, h.trail, map_append_append]
  calls := by
    obtain ⟨made, hqueries, hmade⟩ := h.calls
    obtain ⟨made', hqueries', hmade'⟩ := h'.calls
    refine ⟨made ++ made', ?_, ?_⟩
    · rw [hqueries', hqueries, List.append_assoc]
    · rw [AuditTrail.calls_append, hmade, hmade', List.map_append]

theorem Tells.ends (h : Tells p events q) (h' : Ends q events' result r) :
    Ends p (events ++ events') result r where
  trail := by rw [h'.trail, h.trail, map_append_append, List.append_assoc]
  handed := h'.handed
  calls := by
    obtain ⟨made, hqueries, hmade⟩ := h.calls
    obtain ⟨made', hqueries', hcalls⟩ := h'.calls
    refine ⟨made ++ made', by rw [hqueries', hqueries, List.append_assoc], ?_⟩
    rw [AuditTrail.calls_append, hmade, List.map_append]
    rcases hcalls with hmade' | ⟨hcanceled, server, hmade'⟩
    · exact .inl (by rw [hmade'])
    · exact .inr ⟨hcanceled, server, by rw [hmade', List.append_assoc]⟩

/-! ## Ends -/

theorem ends_fail (e : ClientError) (p : Progress σ) :
    let ended := (fail s e).run p
    Ends p [] ended.1 ended.2 where
  trail := rfl
  handed := rfl
  calls := ⟨[], (List.append_nil _).symm, .inl rfl⟩

theorem ends_succeed (m : Message) (server : SocketAddress) (fromCache : Bool) (p : Progress σ) :
    let ended := (succeed m server fromCache).run p
    Ends p [] ended.1 ended.2 where
  trail := rfl
  handed := rfl
  calls := ⟨[], (List.append_nil _).symm, .inl rfl⟩

theorem ends_endWithDnsError (m : Message) (server : SocketAddress) (p : Progress σ) :
    let ended := (endWithDnsError s m server).run p
    Ends p [] ended.1 ended.2 := by
  unfold endWithDnsError
  cases s.config.throwDnsErrors <;> exact ⟨rfl, rfl, [], (List.append_nil _).symm, .inl rfl⟩

theorem ends_conclude (tally : Tally) (p : Progress σ) :
    let ended := (conclude s tally).run p
    Ends p [] ended.1 ended.2 := by
  unfold conclude
  split
  · rename_i server m hlast
    have hmoved : Tells p [] { p with server := some server } := .of_quiet rfl rfl
    exact hmoved.ends (ends_endWithDnsError (s := s) m server _)
  · split
    · exact ends_fail .connectionTimeout p
    · exact ends_fail .noConnection p

theorem TellsTooMuch.ends_fail (h : TellsTooMuch p events q) :
    let ended := (fail s .canceled).run q
    Ends p events ended.1 ended.2 where
  trail := by
    change q.trail.map _ = _
    rw [h.trail, map_append_append]
    rfl
  handed := rfl
  calls := by
    obtain ⟨made, server, hqueries, hmade⟩ := h.calls
    exact ⟨made, hqueries, .inr ⟨⟨_, rfl, rfl⟩, server, hmade⟩⟩

theorem delivered_fail {e : ClientError} {server : SocketAddress}
    (hserver : p.server = some server) :
    Delivered s server (.broken e) ((fail s e).run p).1 := by
  rw [run_fail, hserver]
  exact .broken e _

theorem delivered_endWithDnsError {m : Message} {server : SocketAddress}
    (herror : m.responseCode ≠ .noError) (hserver : p.server = some server) :
    Delivered s server (.answer m) ((endWithDnsError s m server).run p).1 := by
  obtain ⟨result, session, ⟨trail, hrun⟩, hdelivered, -⟩ :=
    leads_endWithDnsError (s := s) herror hserver
  rw [hrun]
  exact hdelivered

/-! ## Calls -/

theorem settle_result (timeout : Duration) (token : Option Duration) (outcome : Pending Octets) :
    (settle timeout token outcome).result = outcome.result ∨
      (settle timeout token outcome).result = .error .timeout ∨
      (settle timeout token outcome).result = .error .canceled := by
  have hwithin : (outcome.within timeout).result = outcome.result ∨
      (outcome.within timeout).result = .error .timeout ∨
      (outcome.within timeout).result = .error .canceled :=
    (within_result timeout outcome).imp_right .inl
  unfold settle Pending.unlessCanceled
  generalize outcome.within timeout = final at hwithin ⊢
  split
  · exact hwithin
  · split
    · exact hwithin
    · split
      · split
        · exact .inr (.inr rfl)
        · exact hwithin
      · exact .inr (.inr rfl)

theorem MadeCall.answer_eq_error {e : ClientError} (h : c.answer s = .error e) :
    e = .canceled ∨ e = .timeout ∨ Reported s e := by
  unfold MadeCall.answer MadeCall.run at h
  cases hcanceled : c.before.isCanceled with
  | true =>
      rw [run_send_of_canceled hcanceled] at h
      exact .inl (Except.error.inj h).symm
  | false =>
      let call := (s.surroundings.query c.query.protocol c.query.server c.query.request
        c.before.session.time c.before.session.world).1
      obtain ⟨token, hrun⟩ : ∃ token,
          (settle s.config.timeout token call.outcome).result = .error e := by
        unfold send at h
        simp only [run_bind, run_get, hcanceled, Bool.false_eq_true, if_false] at h
        exact ⟨_, h⟩
      rcases settle_result s.config.timeout token call.outcome with hsame | hlate | hended
      · exact .inr (.inr ⟨_, _, _, _, _, hsame.symm.trans hrun⟩)
      · exact .inr (.inl (Except.error.inj (hrun.symm.trans hlate)))
      · exact .inl (Except.error.inj (hrun.symm.trans hended))

theorem isTransient_or_silent_of_reading {e : ClientError}
    (h : reading s (c.answer s) = .error e) : e.isTransient = true ∨ Silent s e := by
  cases hanswer : c.answer s with
  | error e' =>
      rw [hanswer] at h
      obtain rfl := Except.error.inj h
      rcases c.answer_eq_error hanswer with rfl | rfl | hreported
      · exact .inr (.inl rfl)
      · exact .inl rfl
      · cases htransient : e'.isTransient with
        | true => exact .inl rfl
        | false => exact .inr (.inr (.inr ⟨htransient, hreported⟩))
  | ok octets =>
      rw [reading_of_answer hanswer] at h
      cases hread : Message.ofOctets s.registry octets with
      | error e' =>
          rw [hread] at h
          exact .inr (.inr (.inl ⟨e', (Except.error.inj h).symm⟩))
      | ok m =>
          rw [hread] at h
          cases h

/-! ## Attempts -/

inductive AttemptTold (s : Setting σ) (server : NameServer) (number : Nat) (p : Progress σ) :
    Except ClientError Message × Progress σ → Prop where
  | uncomposed {id : UInt16} {e : ComposeError} {q : Progress σ}
      (request : requestOctets s id = .error e) (tells : Tells p [] q) :
      AttemptTold s server number p (.error (.compose e), q)
  | called {outcome : Except ClientError Message} {calls : AuditTrail} {q : Progress σ}
      (calling : Calling s server number calls) (tells : Tells p calls q)
      (errors : ∀ e, outcome = .error e → e.isTransient = true ∨ Silent s e) :
      AttemptTold s server number p (outcome, q)
  | interrupted {calls : AuditTrail} {q : Progress σ} (calling : Calling s server number calls)
      (tells : TellsTooMuch p calls q) : AttemptTold s server number p (.error .canceled, q)

theorem attempt_told (server : NameServer) (number : Nat) (hlive : p.isCanceled = false) :
    AttemptTold s server number p ((attempt s server number).run p) := by
  cases hrequest : requestOctets s (s.surroundings.requestId p.session.idsUsed) with
  | error e =>
      rw [run_attempt_of_error server number hrequest]
      exact .uncomposed hrequest (.of_quiet rfl rfl)
  | ok octets =>
      obtain ⟨hwhole, hcut⟩ := run_attempt_of_ok (s := s) (p := p) server number hrequest
      let c := firstCall s server number octets p
      let d := secondCall s server octets c
      have hcLive : c.before.isCanceled = false := quiet_firstCall.isCanceled_eq.trans hlive
      have hqueries : (c.after s).session.queries = p.session.queries ++ [c.query] :=
        MadeCall.queries_after hcLive
      obtain ⟨-, -, htrail, -⟩ := c.after_frame (s := s)
      by_cases hshort : CutShort s c
      · rw [hcut hshort]
        obtain ⟨-, -, htrail', -⟩ := d.after_frame (s := s)
        have htrail' := htrail'.trans (trail_secondCall (s := s))
        have hcalling : Calling s server number _ := .twice hshort.1 hshort.2.1
        have hudp : firstProtocol s server = .udp := hshort.1
        cases hcanceled : (c.after s).isCanceled with
        | true =>
            -- The second call has been announced before the token is looked at.
            have hsecond : d.run s = (.error .canceled, d.before) :=
              run_send_of_canceled ((quiet_secondCall _ _ c).isCanceled_eq.trans hcanceled) _ _ _
            have hend : (reading s (d.answer s), d.after s) = (.error .canceled, d.before) := by
              rw [MadeCall.answer, MadeCall.after, hsecond]
              rfl
            rw [hend]
            refine .interrupted hcalling ⟨trail_secondCall, [c.query], server.address, hqueries, ?_⟩
            rfl
        | false =>
            have hdLive := (quiet_secondCall server octets c).isCanceled_eq.trans hcanceled
            refine .called hcalling ⟨htrail', [c.query, d.query], ?_, rfl⟩ ?_
            · rw [MadeCall.queries_after hdLive]
              change (c.after s).session.queries ++ [d.query] = _
              rw [hqueries, List.append_assoc]
              rfl
            · exact fun e he => isTransient_or_silent_of_reading he
      · rw [hwhole hshort]
        refine .called .once ⟨htrail, [c.query], hqueries, rfl⟩ ?_
        exact fun e he => isTransient_or_silent_of_reading he

/-! ## Judging an attempt -/

inductive VerdictTold (s : Setting σ) (server : SocketAddress) (p : Progress σ) :
    Verdict × Progress σ → Prop where
  | finished {result : LookupResult} {closing : AuditTrail} {q : Progress σ}
      (closes : Closing s server closing (.ended result)) (ends : Ends p closing result q) :
      VerdictTold s server p (.finished result, q)
  | nextServer {m : Message} {closing : AuditTrail} {q : Progress σ}
      (closes : Closing s server closing .nextServer) (tells : Tells p closing q) :
      VerdictTold s server p (.nextServer m, q)
  | nextAttempt {e : ClientError} {closing : AuditTrail} {q : Progress σ}
      (closes : Closing s server closing .sameServer) (tells : Tells p closing q)
      (still : q.server = p.server) : VerdictTold s server p (.nextAttempt e, q)

theorem tells_notingError (m : Message) (p : Progress σ) :
    Tells p [.responseHeader m.header m.size, .responseError m.responseCode]
      (p.notingError m) :=
  (tells_noting _ rfl p).trans (tells_noting _ rfl _)

theorem tells_keeping (key : CacheKey) (m : Message) (p : Progress σ) :
    Tells p [] (p.keeping s key m) := by
  unfold Progress.keeping
  split
  · exact .of_quiet rfl rfl
  · exact .refl p

theorem judge_told {server : SocketAddress} (key : CacheKey)
    {outcome : Except ClientError Message}
    (errors : ∀ e, outcome = .error e → e.isTransient = true ∨ Silent s e)
    (hserver : p.server = some server) :
    VerdictTold s server p ((judge s server key outcome).run p) := by
  cases appraised s outcome with
  | @transient e htransient =>
      rw [run_judge_of_transient htransient]
      exact .nextAttempt (.transportError htransient) (tells_noting _ rfl p) rfl
  | @firm e hfirm =>
      have hsilent : Silent s e := (errors e rfl).resolve_left (by simp [hfirm])
      rw [run_judge_of_firm hfirm]
      exact .finished (.silent hsilent (delivered_fail hserver)) (ends_fail e p)
  | @goesOn m herror hgoesOn =>
      have hfinal := Finding.isFinal_answer s.config m
      rw [hgoesOn] at hfinal
      rw [run_judge_of_goesOn herror hgoesOn]
      exact .nextServer (.nextServer hfinal) ((tells_notingError m p).trans (tells_noting _ rfl _))
  | @ends m herror hends =>
      have hcode := ResponseCode.isError_iff.1 herror
      have hfinal := Finding.isFinal_answer s.config m
      have hdelivered := delivered_endWithDnsError (s := s) (p := p.notingError m) hcode hserver
      rw [hends] at hfinal
      rw [run_judge_of_ends herror hends]
      exact .finished (.errorCode hcode hfinal hdelivered)
        ((tells_notingError m p).ends (ends_endWithDnsError m server _))
  | @noError m herror =>
      have hclean := ResponseCode.isError_eq_false_iff.1 herror
      have hkept := (tells_noting (.responseHeader m.header m.size) rfl p).trans
        (tells_keeping (s := s) key m _)
      rw [run_judge_of_noError herror]
      exact .finished (.response hclean (.answer m _ (.inl hclean)))
        (hkept.ends (ends_succeed m server false _))

/-! ## The attempts on a server -/

inductive AskedTold (s : Setting σ) (server : NameServer) (number left : Nat) (p : Progress σ) :
    Outcome × Progress σ → Prop where
  | finished {result : LookupResult} {events : AuditTrail} {q : Progress σ}
      (block : Block s server number left events (.ended result)) (ends : Ends p events result q) :
      AskedTold s server number left p (.finished result, q)
  | goOn {tally : Tally} {events : AuditTrail} {q : Progress σ}
      (block : Block s server number left events .nextServer) (tells : Tells p events q) :
      AskedTold s server number left p (.goOn tally, q)

theorem AskedTold.again {server : NameServer} {number left : Nat} {calls closing : AuditTrail}
    {asked : Outcome × Progress σ} (h : AskedTold s server (number + 1) left q asked)
    (calling : Calling s server number calls)
    (closes : Closing s server.address closing .sameServer) (tells : Tells p (calls ++ closing) q) :
    AskedTold s server number (left + 1) p asked := by
  cases h with
  | finished block ends => exact .finished (.again calling closes block) (tells.ends ends)
  | goOn block tells' => exact .goOn (.again calling closes block) (tells.trans tells')

theorem attempts_told (server : NameServer) (key : CacheKey) (number : Nat) (tally : Tally)
    (left : Nat) (hlive : number = 0 → p.isCanceled = false)
    (hserver : p.server = some server.address) :
    AskedTold s server number left p ((attempts s server key number tally left).run p) := by
  -- Only between two attempts can the token be found triggered, as the server's block begins live.
  induction left generalizing number tally p with
  | zero => exact .goOn (.exhausted number) (.refl p)
  | succ left ih =>
      cases hcanceled : p.isCanceled with
      | true =>
          rw [run_attempts_of_canceled _ _ _ _ _ hcanceled]
          cases number with
          | zero => cases hcanceled.symm.trans (hlive rfl)
          | succ number =>
              exact .finished (.canceled (delivered_fail hserver)) (ends_fail .canceled p)
      | false =>
          obtain ⟨a, q, ha⟩ := attempted (s := s) server number hcanceled
          have hq := ha.still.trans hserver
          have htold := attempt_told (s := s) server number hcanceled
          rw [run_attempts_of_live _ _ _ _ _ hcanceled]
          rw [ha.run] at htold ⊢
          dsimp only
          generalize a.outcome = outcome at htold ⊢
          cases htold with
          | uncomposed request tells =>
              rw [run_judge_of_firm rfl]
              exact .finished (.uncomposed request (delivered_fail hq))
                (tells.ends (ends_fail _ q))
          | called calling tells errors =>
              have hjudged := judge_told (s := s) key errors hq
              generalize (judge s server.address key outcome).run q = judged at hjudged ⊢
              cases hjudged with
              | finished closes ends =>
                  exact .finished (.last calling closes nofun) (tells.ends ends)
              | nextServer closes tells' =>
                  exact .goOn (.last calling closes nofun) (tells.trans tells')
              | nextAttempt closes tells' still =>
                  exact (ih (number + 1) (tally.add _) nofun (still.trans hq)).again calling closes
                    (tells.trans tells')
          | interrupted calling tells =>
              have hclosing : Closing s server.address [] _ :=
                .silent (.inl rfl) (delivered_fail (e := .canceled) hq)
              have hblock : Block s server number (left + 1) _ _ := .last calling hclosing nofun
              rw [List.append_nil] at hblock
              rw [run_judge_of_firm rfl]
              exact .finished hblock tells.ends_fail

/-! ## The walk over the servers -/

theorem walk_told (tally : Tally) (servers : List NameServer) (p : Progress σ) :
    let ran := (walk s tally servers).run p
    ∃ events, Blocks s servers events ran.1 ∧ Ends p events ran.1 ran.2 := by
  induction servers generalizing tally p with
  | nil => exact ⟨[], .exhausted _, ends_conclude tally p⟩
  | cons server rest ih =>
      cases hcanceled : p.isCanceled with
      | true =>
          rw [run_walk_of_canceled _ _ _ hcanceled]
          exact ⟨[], .canceled rfl, ends_fail .canceled p⟩
      | false =>
          obtain ⟨cache, -, -, found, hrun, hfound⟩ :=
            consulted_cached (s := s) server.address { p with server := some server.address }
          let q : Progress σ :=
            ⟨{ p.session with cache := cache }, p.token, p.trail, some server.address⟩
          have hquiet : Tells p [] q := .of_quiet rfl rfl
          rw [run_walk_of_live _ _ _ hcanceled]
          dsimp only
          rw [hrun]
          cases hfound with
          | hit used held fresh =>
              have hhit := hquiet.trans (tells_noting (.cacheHit server.address) rfl q)
              exact ⟨_, .cacheHit used (.cached _ _), hhit.ends (ends_succeed _ _ true _)⟩
          | miss absent =>
              have hasked := attempts_told (s := s) (p := q) server
                (.of server.address s.question) 0 tally (s.config.retries + 1)
                (fun _ => hcanceled) rfl
              dsimp only
              change AskedTold _ _ _ _ _ ((attempts s server (.of server.address s.question) 0 tally
                (s.config.retries + 1)).run _) at hasked
              generalize (attempts s server (.of server.address s.question) 0 tally
                (s.config.retries + 1)).run _ = asked at hasked ⊢
              cases hasked with
              | finished block ends => exact ⟨_, .last block, hquiet.ends ends⟩
              | @goOn next events r block tells =>
                  obtain ⟨later, hblocks, hends⟩ := ih next r
                  exact ⟨_, .onward block hblocks, (hquiet.trans tells).ends hends⟩

theorem lookup_told {servers : List NameServer}
    (hshuffle : s.config.randomOrder = true → (s.surroundings.shuffle servers).Perm servers)
    (p : Progress σ) :
    let ran := (lookup s servers).run p
    ∃ events, Word s (s.order servers) events ran.1 ∧ Ends p events ran.1 ran.2 := by
  by_cases hservers : servers = []
  · subst hservers
    rw [List.perm_nil.1 (order_perm hshuffle)]
    exact ⟨[], .noServers _, ends_fail .noServers p⟩
  · have hlisted := tells_noting
      (.resolvedServers ((s.order servers).map NameServer.address)) rfl p
    obtain ⟨events, hblocks, hends⟩ := walk_told (s := s) .empty (s.order servers)
      (p.noting (.resolvedServers ((s.order servers).map NameServer.address)))
    rw [run_lookup_of_servers hservers]
    exact ⟨_, .servers (order_ne_nil hservers hshuffle) hblocks, hlisted.ends hends⟩

end StubResolver.Lookup

namespace StubResolver

open Lookup

/-- With the audit trail on, the trail of a lookup is a word of the grammar for its
servers in the order in which they are tried, and then the one end, which tells the
size of the response if there is one. The calls it announces are those that the
lookup makes, one after the other. In a lookup that is canceled, the last one that is
announced, to ask again over TCP, need not have been made. -/
theorem Client.queryServers_trail {σ : Type} (c : Client) (surroundings : Surroundings σ)
    (servers : List NameServer) (question : Question) (token : Token) (session : Session σ)
    (haudit : c.config.auditTrail = true)
    (hshuffle : c.config.randomOrder = true → (surroundings.shuffle servers).Perm servers) :
    let s : Setting σ := ⟨surroundings, c.config, c.registry, question⟩
    let outcome := c.queryServers surroundings servers question token session
    (s.order servers).Perm servers ∧
    ∃ events made, Word s (s.order servers) events outcome.1 ∧ Unended events ∧
      LookupResult.trail? outcome.1 = some (events ++ [.ended (LookupResult.size? outcome.1)]) ∧
      outcome.2.queries = session.queries ++ made ∧
      (events.calls = made.map Query.call ∨ LookupResult.IsCanceled outcome.1 ∧
        ∃ server, events.calls = made.map Query.call ++ [(server, .tcp)]) ∧
      (¬ LookupResult.IsCanceled outcome.1 →
        events.countP (fun event => event.call?.isSome) = made.length) := by
  intro s outcome
  obtain ⟨events, hword, hends⟩ := lookup_told (s := s) hshuffle (c.initial token session)
  obtain ⟨made, hqueries, hcalls⟩ := hends.calls
  have hinitial : (c.initial token session).trail = some [] := if_pos haudit
  have htrail := hends.handed.trans hends.trail
  rw [hinitial] at htrail
  refine ⟨order_perm hshuffle, events, made, hword, hword.unended, htrail, hqueries, hcalls,
    fun hlive => ?_⟩
  have hcalls : events.calls = made.map Query.call := hcalls.resolve_right fun h => hlive h.1
  calc
    events.countP (fun event => event.call?.isSome) = events.calls.length :=
      List.length_filterMap_eq_countP.symm
    _ = made.length := by rw [hcalls, List.length_map]

/-- The second server is tried first, and refuses. The first one answers over UDP
with a response that is cut short, and is asked again over TCP. -/
theorem Client.queryServers_trail_refused_then_cut :
    let config : LookupConfig := { LookupConfig.default with auditTrail := true, useCache := false }
    let client : Client := ⟨[], config, .empty⟩
    let answering : NameServer := .ofAddress (.v4 ⟨#v[192, 0, 2, 1]⟩ 53)
    let refusing : NameServer := .ofAddress (.v4 ⟨#v[192, 0, 2, 2]⟩ 53)
    let surroundings : Surroundings Unit :=
      { query := fun protocol server _ _ world =>
          (⟨false, .now (.ok (if server = refusing.address
            then #[0, 0, 0x80, 0x05, 0, 0, 0, 0, 0, 0, 0, 0]
            else #[0, 0, if protocol = .udp then 0x82 else 0x80, 0, 0, 0, 0, 0, 0, 0, 0, 0]))⟩,
            world)
        clock := fun _ => 0
        requestId := fun _ => 0
        shuffle := List.reverse }
    let question : Question := ⟨.root, .a, .internet⟩
    let session : Session Unit := .start () (.empty .default false 0)
    let s : Setting Unit := ⟨surroundings, config, .empty, question⟩
    let outcome :=
      client.queryServers surroundings [answering, refusing] question .unheld session
    let events : AuditTrail :=
      [.resolvedServers [refusing.address, answering.address], .attempt refusing.address .udp 0,
        .responseHeader ⟨0, 0x8005⟩ 12, .responseError ⟨5⟩,
        .retryNextServer refusing.address ⟨5⟩, .attempt answering.address .udp 0,
        .truncatedRetryTcp answering.address, .responseHeader ⟨0, 0x8000⟩ 12]
    config.auditTrail = true ∧ ([answering, refusing].reverse).Perm [answering, refusing] ∧
      LookupResult.trail? outcome.1 = some (events ++ [.ended (some 12)]) ∧
      Word s [refusing, answering] events outcome.1 ∧
      outcome.2.queries.map Query.call = events.calls := by
  intro config client answering refusing surroundings question session s outcome events
  have hshuffle : (surroundings.shuffle [answering, refusing]).Perm [answering, refusing] :=
    List.reverse_perm _
  have htrail : LookupResult.trail? outcome.1 = some (events ++ [.ended (some 12)]) := by
    decide +kernel
  obtain ⟨-, events', made, hword, -, htrail', -⟩ := Client.queryServers_trail client surroundings
    [answering, refusing] question .unheld session rfl fun _ => hshuffle
  obtain ⟨rfl, -⟩ := List.append_inj' (Option.some.inj (htrail'.symm.trans htrail)) (by simp)
  exact ⟨rfl, hshuffle, htrail, hword, by decide +kernel⟩

end StubResolver
