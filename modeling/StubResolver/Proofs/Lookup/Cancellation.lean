import StubResolver.Proofs.Lookup.Fallback
import StubResolver.Proofs.Lookup.Reports
import StubResolver.Proofs.Lookup.Timeline

/-!
# Lookups that are canceled

A token that is triggered while a lookup is under way falls into one of its calls,
unless it is triggered just as a call is over. The lookup ends there, as canceled,
and leaves what it had come to when the call was made. No lookup is canceled
otherwise, but for a transport that says so.
-/

namespace StubResolver.Lookup

variable {σ : Type} {s : Setting σ} {p q : Progress σ} {c : MadeCall σ}
  {calls : List (MadeCall σ)} {trigger : Option Duration} {θ : Duration}

/-! ## The time of the trigger -/

/-- The token is triggered at that time by its
holder, or by the first call that triggers it. -/
structure TriggeredAt (s : Setting σ) (calls : List (MadeCall σ)) (trigger : Option Duration)
    (θ : Duration) : Prop where
  cause : trigger = some θ ∨ ∃ c ∈ calls, (c.transportCall s).cancels = true ∧ c.start = θ
  byHolder : ∀ t, trigger = some t → θ ≤ t
  byCall : ∀ c ∈ calls, (c.transportCall s).cancels = true → θ ≤ c.start

/-- No call is over at that very instant, unless it
is another call that triggers the token then. -/
def Apart (s : Setting σ) (calls : List (MadeCall σ)) (trigger : Option Duration)
    (θ : Duration) : Prop :=
  ∀ c ∈ calls, c.completion s = θ → trigger ≠ some θ ∧ (c.transportCall s).cancels = false

theorem Makes.time_le_start (h : Makes s p calls q) (hunheld : p.token = .unheld) :
    (∀ c ∈ calls, p.session.time ≤ c.start) ∧ p.session.time ≤ q.session.time := by
  induction h with
  | none quiet => exact ⟨by simp, Nat.le_of_eq quiet.time.symm⟩
  | @call p q c calls quiet live rest ih =>
      have hunheld := quiet.token.trans hunheld
      have hstart : p.session.time = c.start := quiet.time.symm
      have hle : p.session.time ≤ c.completion s := hstart ▸ MadeCall.start_le_completion hunheld
      obtain ⟨hcalls, hend⟩ := ih (MadeCall.token_after hunheld)
      refine ⟨List.forall_mem_cons.2 ⟨Nat.le_of_eq hstart, fun d hd => ?_⟩, Nat.le_trans hle hend⟩
      exact Nat.le_trans hle (hcalls d hd)

theorem Makes.pairwise (h : Makes s p calls q) (hunheld : p.token = .unheld) :
    calls.Pairwise fun b c => b.completion s ≤ c.start := by
  induction h with
  | none => exact .nil
  | @call p q c calls quiet live rest ih =>
      have hunheld := MadeCall.token_after (s := s) (quiet.token.trans hunheld)
      exact .cons (rest.time_le_start hunheld).1 (ih hunheld)

theorem TriggeredAt.tail (h : TriggeredAt s (c :: calls) trigger θ)
    (hcalm : (c.transportCall s).cancels = false) : TriggeredAt s calls trigger θ where
  cause := by
    refine h.cause.imp_right ?_
    rintro ⟨d, hd, hcancels, hθ⟩
    rcases List.mem_cons.1 hd with rfl | hd
    · cases hcalm.symm.trans hcancels
    · exact ⟨d, hd, hcancels, hθ⟩
  byHolder := h.byHolder
  byCall d hd := h.byCall d (List.mem_cons_of_mem c hd)

theorem TriggeredAt.eq_start (h : TriggeredAt s (c :: calls) trigger θ)
    (hlive : Live trigger c.before) (hlater : ∀ d ∈ calls, c.start ≤ d.start)
    (hcancels : (c.transportCall s).cancels = true) : θ = c.start := by
  have hfirst := h.byCall c List.mem_cons_self hcancels
  rcases h.cause with htrigger | ⟨d, hd, -, rfl⟩
  · exact absurd hfirst (Nat.not_le.2 (hlive θ htrigger))
  · rcases List.mem_cons.1 hd with rfl | hd
    · rfl
    · exact Nat.le_antisymm hfirst (hlater d hd)

theorem TriggeredAt.eq_of_le {t : Duration} (h : TriggeredAt s calls trigger θ)
    (htrigger : trigger = some t) (hlater : ∀ d ∈ calls, t ≤ d.start) : θ = t := by
  have hfirst := h.byHolder t htrigger
  rcases h.cause with hθ | ⟨d, hd, -, rfl⟩
  · exact Option.some.inj (hθ.symm.trans htrigger)
  · exact Nat.le_antisymm hfirst (hlater d hd)

theorem Makes.split {before after : List (MadeCall σ)} (h : Makes s p (before ++ c :: after) q) :
    Makes s p before c.before ∧ Makes s (c.after s) after q := by
  induction before generalizing p with
  | nil =>
      cases h with
      | call quiet _ rest => exact ⟨.none quiet, rest⟩
  | cons b before ih =>
      cases h with
      | call quiet live rest => exact ⟨.call quiet live (ih rest).1, (ih rest).2⟩

theorem Makes.unheld_of_mem (h : Makes s p calls q) (hunheld : p.token = .unheld)
    (hc : c ∈ calls) : c.before.token = .unheld := by
  obtain ⟨before, after, rfl⟩ := List.append_of_mem hc
  exact h.split.1.unheld hunheld

theorem Makes.completion_le (h : Makes s p calls q) (hunheld : p.token = .unheld)
    (hc : c ∈ calls) : c.completion s ≤ q.session.time := by
  have hbefore := h.unheld_of_mem hunheld hc
  obtain ⟨before, after, rfl⟩ := List.append_of_mem hc
  exact (h.split.2.time_le_start (MadeCall.token_after hbefore)).2

theorem exists_stopsIn (h : Makes s p calls q) (hunheld : p.token = .unheld)
    (hlive : Live trigger p) (htriggered : TriggeredAt s calls trigger θ)
    (hapart : Apart s calls trigger θ) (hbefore : θ < q.session.time) :
    ∃ c, StopsIn s trigger calls c θ := by
  induction h with
  | none quiet =>
      rcases htriggered.cause with htrigger | ⟨c, hc, -⟩
      · have hlate := hlive θ htrigger
        rw [← quiet.time] at hlate
        exact absurd hbefore (Nat.not_lt.2 (Nat.le_of_lt hlate))
      · cases hc
  | @call p q c calls quiet live rest ih =>
      have hunheld := quiet.token.trans hunheld
      have hlive := hlive.of_quiet quiet
      have hle := MadeCall.start_le_completion (s := s) hunheld
      obtain ⟨hlater, -⟩ := rest.time_le_start (MadeCall.token_after (s := s) hunheld)
      obtain ⟨hfirst, hapart'⟩ := List.forall_mem_cons.1 hapart
      cases hcancels : (c.transportCall s).cancels with
      | true =>
          obtain rfl := htriggered.eq_start hlive
            (fun d hd => Nat.le_trans hle (hlater d hd)) hcancels
          have hlong : c.start < c.completion s := by
            refine Nat.lt_of_le_of_ne hle fun hover => ?_
            cases hcancels.symm.trans (hfirst hover.symm).2
          exact ⟨c, .here (.byCall hcancels hlong)⟩
      | false =>
          have hrest := htriggered.tail hcancels
          -- The token outlives the call, or it is its holder who triggers it by then.
          by_cases hpass : ∀ t, trigger = some t → c.completion s < t
          · obtain ⟨d, hd⟩ := ih (MadeCall.token_after hunheld) hpass hrest hapart' hbefore
            exact ⟨d, .later ⟨hcancels, hpass⟩ hd⟩
          · obtain ⟨t, htrigger, hearly⟩ : ∃ t, trigger = some t ∧ t ≤ c.completion s := by
              simpa using hpass
            obtain rfl := hrest.eq_of_le htrigger fun d hd => Nat.le_trans hearly (hlater d hd)
            have hne : θ ≠ c.completion s := fun hover => (hfirst hover.symm).1 htrigger
            exact ⟨c, .here (.during hcancels htrigger (Nat.lt_of_le_of_ne hearly hne))⟩

/-! ## Calls and the servers they are made to -/

theorem attemptCalls_of_ok (server : NameServer) (number : Nat) {octets : Octets}
    (hrequest : requestOctets s (s.surroundings.requestId p.session.idsUsed) = .ok octets) :
    let c := firstCall s server number octets p
    let d := secondCall s server octets c
    (¬ CutShort s c → attemptCalls s server number p = [c]) ∧
      (CutShort s c → attemptCalls s server number p = [c, d]) := by
  intro c d
  unfold attemptCalls
  rw [hrequest]
  dsimp only
  cases hreading : reading s (c.answer s) with
  | error e =>
      refine ⟨fun _ => rfl, ?_⟩
      rintro ⟨-, -, m, hreading', -⟩
      cases hreading.symm.trans hreading'
  | ok m =>
      rw [cutShort_iff rfl hreading]
      exact ⟨fun hwhole => if_neg hwhole, fun hcut => if_pos hcut⟩

theorem server_of_mem_attemptCalls {server : NameServer} {number : Nat}
    (hserver : p.server = some server.address) (hc : c ∈ attemptCalls s server number p) :
    c.before.server = some c.query.server := by
  cases hrequest : requestOctets s (s.surroundings.requestId p.session.idsUsed) with
  | error e => simp [attemptCalls, hrequest] at hc
  | ok octets =>
      obtain ⟨hwhole, hcut⟩ := attemptCalls_of_ok server number hrequest
      have hfirst := (firstCall s server number octets p).after_frame (s := s)
      by_cases hshort : CutShort s (firstCall s server number octets p)
      · rw [hcut hshort] at hc
        rcases List.mem_pair.1 hc with rfl | rfl
        · exact hserver
        · exact hfirst.2.2.2.trans hserver
      · rw [hwhole hshort] at hc
        obtain rfl := List.mem_singleton.1 hc
        exact hserver

/-! ## Lookups that are canceled by a transport -/

theorem reading_eq_canceled {answer : Except ClientError Octets}
    (h : reading s answer = .error .canceled) : answer = .error .canceled := by
  cases answer with
  | error e => exact congrArg _ (Except.error.inj h)
  | ok octets =>
      have hdecode : decode s octets = .error .canceled := h
      unfold decode at hdecode
      cases hread : Message.ofOctets s.registry octets <;>
        simp [hread, Except.mapError] at hdecode

theorem attempt_canceled (server : NameServer) (number : Nat)
    (h : ((attempt s server number).run p).1 = .error .canceled) :
    ∃ c ∈ attemptCalls s server number p, c.answer s = .error .canceled := by
  cases hrequest : requestOctets s (s.surroundings.requestId p.session.idsUsed) with
  | error e =>
      rw [run_attempt_of_error server number hrequest] at h
      cases h
  | ok octets =>
      obtain ⟨hwhole, hcut⟩ := run_attempt_of_ok (s := s) (p := p) server number hrequest
      obtain ⟨hwhole', hcut'⟩ := attemptCalls_of_ok server number hrequest
      by_cases hshort : CutShort s (firstCall s server number octets p)
      · rw [hcut hshort] at h
        rw [hcut' hshort]
        exact ⟨_, by simp, reading_eq_canceled h⟩
      · rw [hwhole hshort] at h
        rw [hwhole' hshort]
        exact ⟨_, by simp, reading_eq_canceled h⟩

def LookupResult.IsCanceled (result : LookupResult) : Prop :=
  ∃ f, result = .error f ∧ f.error = .canceled

theorem Delivered.of_canceled {server : SocketAddress} {finding : Finding} {result : LookupResult}
    (h : Delivered s server finding result) (hcanceled : LookupResult.IsCanceled result) :
    finding = .broken .canceled := by
  obtain ⟨f, hf, herror⟩ := hcanceled
  cases h with
  | cached | answer => cases hf
  | broken e trail =>
      obtain rfl := Except.error.inj hf
      exact congrArg _ herror
  | dnsError m trail error throws =>
      obtain rfl := Except.error.inj hf
      cases herror

theorem endWithDnsError_not_canceled (m : Message) (server : SocketAddress) (p : Progress σ) :
    ¬ LookupResult.IsCanceled ((endWithDnsError s m server).run p).1 := by
  rintro ⟨f, hf, herror⟩
  unfold endWithDnsError at hf
  split at hf
  · obtain rfl := Except.error.inj hf
    cases herror
  · cases hf

theorem conclude_not_canceled (tally : Tally) (p : Progress σ) :
    ¬ LookupResult.IsCanceled ((conclude s tally).run p).1 := by
  unfold conclude
  split
  · exact endWithDnsError_not_canceled _ _ { p with server := some _ }
  · split
    all_goals
      rintro ⟨f, hf, herror⟩
      obtain rfl := Except.error.inj hf
      cases herror

theorem attempts_accounts (server : NameServer) (key : CacheKey) (number : Nat) (tally : Tally)
    (left : Nat) (hunheld : p.token = .unheld) (hserver : p.server = some server.address) :
    (∀ c ∈ attemptsCalls s server key number left p, c.before.server = some c.query.server) ∧
      ∀ result, ((attempts s server key number tally left).run p).1 = .finished result →
        LookupResult.IsCanceled result →
        ∃ c ∈ attemptsCalls s server key number left p, c.answer s = .error .canceled := by
  induction left generalizing number tally p with
  | zero => exact ⟨by simp [attemptsCalls], fun result h => by cases h⟩
  | succ left ih =>
      have hlive : p.isCanceled = false := by
        rw [Progress.isCanceled, hunheld]
        rfl
      have hcalls : ∀ c ∈ attemptCalls s server number p, c.before.server = some c.query.server :=
        fun c hc => server_of_mem_attemptCalls hserver hc
      have hcanceled := attempt_canceled (s := s) (p := p) server number
      obtain ⟨trail, hrun⟩ := runs_attempt (s := s) (.inl hunheld) server number
      unfold attemptsCalls
      rw [run_attempts_of_live _ _ _ _ _ hlive]
      dsimp only
      rw [hrun] at hcanceled ⊢
      generalize (ask s server number p.session).1 = outcome at hcanceled ⊢
      generalize (ask s server number p.session).2 = session at hcanceled ⊢
      dsimp only
      -- Only a transient error leads to a further attempt on the server.
      cases hfirm : transient? outcome with
      | some e =>
          obtain ⟨trail', hjudge⟩ : Runs (judge s server.address key outcome)
              { p with session := session, trail := trail } (.nextAttempt e) session :=
            runs_judge_transient key hfirm _
          rw [hjudge]
          obtain ⟨hcalls', hcanceled'⟩ := ih (p := { p with session := session, trail := trail' })
            (number + 1) (tally.add e) hunheld hserver
          refine ⟨List.forall_mem_append.2 ⟨hcalls, hcalls'⟩, fun result hresult hends => ?_⟩
          obtain ⟨c, hc, hanswer⟩ := hcanceled' result hresult hends
          exact ⟨c, List.mem_append_right _ hc, hanswer⟩
      | none =>
          obtain ⟨verdict, after, ⟨trail', hjudge⟩, hjudged⟩ := leads_judge (s := s) key hfirm
            (p := { p with session := session, trail := trail }) hserver
          rw [hjudge]
          generalize hfinding : Finding.ofOutcome outcome = finding at hjudged
          cases hjudged with
          | nextServer goesOn =>
              exact ⟨by simpa using hcalls, fun result h => by cases h⟩
          | @finished _ _ result _ ends delivered =>
              refine ⟨by simpa using hcalls, fun result' hresult hends => ?_⟩
              obtain rfl := Outcome.finished.inj hresult
              have hbroken := hfinding.trans (delivered.of_canceled hends)
              cases outcome with
              | ok m => cases hbroken
              | error e =>
                  obtain rfl := Finding.broken.inj hbroken
                  simpa using hcanceled rfl

theorem walk_accounts (tally : Tally) (servers : List NameServer) (hunheld : p.token = .unheld) :
    (∀ c ∈ walkCalls s tally servers p, c.before.server = some c.query.server) ∧
      (LookupResult.IsCanceled ((walk s tally servers).run p).1 →
        ∃ c ∈ walkCalls s tally servers p, c.answer s = .error .canceled) := by
  induction servers generalizing tally p with
  | nil => exact ⟨by simp [walkCalls], fun h => (conclude_not_canceled tally p h).elim⟩
  | cons server rest ih =>
      have hlive : p.isCanceled = false := by
        rw [Progress.isCanceled, hunheld]
        rfl
      obtain ⟨trail, hrun⟩ := runs_cached s server { p with server := some server.address }
      unfold walkCalls
      rw [run_walk_of_live _ _ _ hlive]
      dsimp only
      rw [hrun]
      generalize (consult s server p.session).1 = found
      generalize (consult s server p.session).2 = session
      cases found with
      | some m =>
          refine ⟨by simp, ?_⟩
          rintro ⟨f, hf, -⟩
          cases hf
      | none =>
          let q : Progress σ := ⟨session, p.token, trail, some server.address⟩
          obtain ⟨hcalls, hcanceled⟩ := attempts_accounts (s := s) (p := q) server
            (.of server.address s.question) 0 tally (s.config.retries + 1) hunheld rfl
          have hr := (timeline_attempts (s := s) (p := q) server (.of server.address s.question) 0
            tally (s.config.retries + 1) hunheld).makes.unheld hunheld
          dsimp only
          unfold q at hcalls hcanceled hr
          generalize (attempts s server (.of server.address s.question) 0 tally
            (s.config.retries + 1)).run ⟨session, p.token, trail, some server.address⟩ = asked
            at hcanceled hr ⊢
          obtain ⟨outcome, r⟩ := asked
          cases outcome with
          | finished result =>
              exact ⟨by simpa using hcalls, fun h => by simpa using hcanceled result rfl h⟩
          | goOn next =>
              obtain ⟨hcalls', hcanceled'⟩ := ih next hr
              refine ⟨List.forall_mem_append.2 ⟨hcalls, hcalls'⟩, fun h => ?_⟩
              obtain ⟨c, hc, hanswer⟩ := hcanceled' h
              exact ⟨c, List.mem_append_right _ hc, hanswer⟩

theorem lookup_accounts {servers : List NameServer} (hservers : servers ≠ [])
    (hunheld : p.token = .unheld) :
    (∀ c ∈ lookupCalls s servers p, c.before.server = some c.query.server) ∧
      (LookupResult.IsCanceled ((lookup s servers).run p).1 →
        ∃ c ∈ lookupCalls s servers p, c.answer s = .error .canceled) := by
  have hsome : servers.isEmpty = false := by simpa using hservers
  unfold lookupCalls
  rw [run_lookup_of_servers hservers, hsome, if_neg Bool.false_ne_true]
  exact walk_accounts .empty (s.order servers) hunheld

theorem MadeCall.result_of_canceled (hunheld : c.before.token = .unheld)
    (h : c.answer s = .error .canceled) :
    (c.transportCall s).outcome.result = .error .canceled := by
  unfold answer at h
  rw [run_of_unheld hunheld] at h
  rcases within_result s.config.timeout (c.transportCall s).outcome with hsame | hlate
  · exact hsame.symm.trans h
  · cases hlate.symm.trans h

theorem MadeCall.canceled_eq (hunheld : c.before.token = .unheld)
    (hserver : c.before.server = some c.query.server) :
    (c.canceled s θ).1 = .error ⟨.canceled, s.question, some c.query.server,
        (c.before.noting (.ended none)).trail, none⟩ ∧
      (c.canceled s θ).2.session = { c.before.session with
        world := (c.after s).session.world
        time := θ
        queries := c.before.session.queries ++ [c.query] } := by
  unfold canceled cutOff after
  rw [run_fail, run_of_unheld hunheld, ← hserver]
  exact ⟨rfl, rfl⟩

theorem run_lookup_of_triggered {servers : List NameServer} (hservers : servers ≠ [])
    (horder : s.order servers ≠ []) (htriggered : p.isCanceled = true) :
    (lookup s servers).run p =
      (fail s .canceled).run
        (p.noting (.resolvedServers ((s.order servers).map NameServer.address))) := by
  obtain ⟨server, rest, hcons⟩ := List.exists_cons_of_ne_nil horder
  rw [run_lookup_of_servers hservers, hcons]
  exact run_walk_of_canceled server rest .empty htriggered

/-! ## Lookups whose token is triggered -/

theorem run_lookup_of_late {servers : List NameServer} (hunheld : p.token = .unheld)
    (hlate : ∀ t, trigger = some t → ((lookup s servers).run p).2.session.time < t)
    (hcalm : ∀ c ∈ lookupCalls s servers p, (c.transportCall s).cancels = false) :
    (lookup s servers).run (p.holding trigger) =
      (((lookup s servers).run p).1, ((lookup s servers).run p).2.holding trigger) := by
  have htimeline := timeline_lookup (s := s) servers hunheld
  have hlive : Live trigger p := fun t ht =>
    Nat.lt_of_le_of_lt (htimeline.makes.time_le_start hunheld).2 (hlate t ht)
  refine htimeline.passes trigger hlive fun c hc => ⟨hcalm c hc, fun t ht => ?_⟩
  exact Nat.lt_of_le_of_lt (htimeline.makes.completion_le hunheld hc) (hlate t ht)

theorem lookup_interrupted {servers : List NameServer} (hservers : servers ≠ [])
    (hunheld : p.token = .unheld) (hlive : Live trigger p)
    (htriggered : TriggeredAt s (lookupCalls s servers p) trigger θ)
    (hapart : Apart s (lookupCalls s servers p) trigger θ)
    (hbefore : θ < ((lookup s servers).run p).2.session.time) :
    ∃ before call after, lookupCalls s servers p = before ++ call :: after ∧
      (∀ b ∈ before, b.completion s ≤ θ) ∧ call.start ≤ θ ∧ θ < call.completion s ∧
      (∀ a ∈ after, θ < a.start) ∧
      ((lookup s servers).run (p.holding trigger)).1 =
        .error ⟨.canceled, s.question, some call.query.server,
          (call.before.noting (.ended none)).trail, none⟩ ∧
      ((lookup s servers).run (p.holding trigger)).2.session = { call.before.session with
        world := (call.after s).session.world
        time := θ
        queries := p.session.queries ++ (before ++ [call]).map MadeCall.query } := by
  have htimeline := timeline_lookup (s := s) servers hunheld
  have hmakes := htimeline.makes
  obtain ⟨call, hstop⟩ := exists_stopsIn hmakes hunheld hlive htriggered hapart hbefore
  obtain ⟨before, after, hcalls, hpass, hinterrupted⟩ := hstop.split
  have hcall : call ∈ lookupCalls s servers p := by simp [hcalls]
  have hordered := hmakes.pairwise hunheld
  obtain ⟨hresult, hsession⟩ := MadeCall.canceled_eq (s := s) (θ := θ)
    (hmakes.unheld_of_mem hunheld hcall) ((lookup_accounts hservers hunheld).1 call hcall)
  rw [hcalls] at hmakes hordered
  obtain ⟨hstart, hearly⟩ := hinterrupted.bounds (hmakes.split.1.live hlive hpass)
  obtain ⟨-, hafter, hbefore⟩ := List.pairwise_append.1 hordered
  refine ⟨before, call, after, hcalls, fun b hb => ?_, hstart, hearly, fun a ha => ?_, ?_, ?_⟩
  · exact Nat.le_trans (hbefore b hb call List.mem_cons_self) hstart
  · exact Nat.lt_of_lt_of_le hearly (List.rel_of_pairwise_cons hafter ha)
  · rw [htimeline.stops trigger call θ hlive hstop, hresult]
  · rw [htimeline.stops trigger call θ hlive hstop, hsession, hmakes.split.1.queries_eq,
      List.map_append, List.append_assoc]
    rfl

end StubResolver.Lookup

namespace StubResolver

open Lookup

/-- A token that is triggered by the time the lookup begins, or before it would end
and not just as a call is over, cancels the lookup, with the server that was reached
last: the calls and what the cache holds are by then those of the undisturbed lookup,
and nothing follows. A token that is not triggered has no part in the lookup, which
is canceled then only by what a transport says. -/
theorem Client.queryServers_canceled {σ : Type} (c : Client) (surroundings : Surroundings σ)
    (servers : List NameServer) (question : Question) (session : Session σ)
    (hservers : servers ≠ [])
    (hshuffle : c.config.randomOrder = true → (surroundings.shuffle servers).Perm servers) :
    let s : Setting σ := ⟨surroundings, c.config, c.registry, question⟩
    let start := c.initial .unheld session
    let calls := lookupCalls s servers start
    let undisturbed := c.queryServers surroundings servers question .unheld session
    undisturbed.2.queries = session.queries ++ calls.map MadeCall.query ∧
      (LookupResult.IsCanceled undisturbed.1 →
        ∃ call ∈ calls, (call.transportCall s).outcome.result = .error .canceled) ∧
      ∀ trigger : Option Duration,
        let outcome := c.queryServers surroundings servers question (.held trigger) session
        ((∃ t, trigger = some t ∧ t ≤ session.time) →
          let trail := ((start.noting (.resolvedServers
            ((s.order servers).map NameServer.address))).noting (.ended none)).trail
          outcome = (.error ⟨.canceled, question, none, trail, none⟩, session)) ∧
        ((∀ t, trigger = some t → undisturbed.2.time < t) →
          (∀ call ∈ calls, (call.transportCall s).cancels = false) → outcome = undisturbed) ∧
        ∀ θ, Live trigger start → TriggeredAt s calls trigger θ → Apart s calls trigger θ →
          θ < undisturbed.2.time →
          ∃ before call after, calls = before ++ call :: after ∧
            (∀ b ∈ before, b.completion s ≤ θ) ∧ call.start ≤ θ ∧ θ < call.completion s ∧
            (∀ a ∈ after, θ < a.start) ∧
            outcome = (.error ⟨.canceled, question, some call.query.server,
                (call.before.noting (.ended none)).trail, none⟩,
              { call.before.session with
                world := (call.after s).session.world
                time := θ
                queries := session.queries ++ (before ++ [call]).map MadeCall.query }) := by
  intro s start calls undisturbed
  have hmakes : Makes s start calls ((lookup s servers).run start).2 :=
    (timeline_lookup servers rfl).makes
  refine ⟨hmakes.queries_eq, fun hcanceled => ?_, fun trigger => ?_⟩
  · obtain ⟨call, hcall, hanswer⟩ := (lookup_accounts (p := start) hservers rfl).2 hcanceled
    exact ⟨call, hcall, call.result_of_canceled (hmakes.unheld_of_mem rfl hcall) hanswer⟩
  · intro outcome
    have houtcome : outcome = (((lookup s servers).run (start.holding trigger)).1,
        ((lookup s servers).run (start.holding trigger)).2.session) := rfl
    rw [houtcome]
    refine ⟨?_, fun hlate hcalm => ?_, fun θ hlive htriggered hapart hbefore => ?_⟩
    · rintro ⟨t, rfl, hearly⟩
      have hcanceled : (start.holding (some t)).isCanceled = true := decide_eq_true hearly
      rw [run_lookup_of_triggered hservers (order_ne_nil hservers hshuffle) hcanceled]
      rfl
    · rw [run_lookup_of_late (s := s) (p := start) rfl hlate hcalm]
      rfl
    · obtain ⟨before, call, after, hcalls, hover, hstart, hearly, hlater, hresult, hsession⟩ :=
        lookup_interrupted hservers rfl hlive htriggered hapart hbefore
      exact ⟨before, call, after, hcalls, hover, hstart, hearly, hlater,
        Prod.ext hresult hsession⟩

/-- The first server closes the connection, and the
token is triggered while the second one is asked. -/
theorem Client.queryServers_canceled_at_second :
    let config : LookupConfig :=
      { LookupConfig.default with retries := 0, randomOrder := false, useCache := false }
    let client : Client := ⟨[], config, .empty⟩
    let first : NameServer := .ofAddress (.v4 ⟨#v[192, 0, 2, 1]⟩ 53)
    let second : NameServer := .ofAddress (.v4 ⟨#v[192, 0, 2, 2]⟩ 53)
    let surroundings : Surroundings Unit :=
      { query := fun _ server _ _ world =>
          (⟨false, ⟨some (if server = first.address then 4 else 10), .error .streamEnd⟩⟩, world)
        clock := fun _ => 0
        requestId := fun _ => 0
        shuffle := id }
    let question : Question := ⟨.root, .a, .internet⟩
    let session : Session Unit := .start () (.empty .default false 0)
    let s : Setting Unit := ⟨surroundings, config, .empty, question⟩
    let calls := lookupCalls s [first, second] (client.initial .unheld session)
    let undisturbed := client.queryServers surroundings [first, second] question .unheld session
    let outcome :=
      client.queryServers surroundings [first, second] question (.held (some 7)) session
    Live (some 7) (client.initial .unheld session) ∧ TriggeredAt s calls (some 7) 7 ∧
      Apart s calls (some 7) 7 ∧ undisturbed.2.time = 14 ∧
      ∃ before call after, calls = before ++ call :: after ∧ call.query.server = second.address ∧
        outcome = (.error ⟨.canceled, question, some second.address,
            (call.before.noting (.ended none)).trail, none⟩,
          { call.before.session with
            world := (call.after s).session.world
            time := 7
            queries := (before ++ [call]).map MadeCall.query }) := by
  intro config client first second surroundings question session s calls undisturbed outcome
  have hlive : Live (some 7) (client.initial .unheld session) := by
    rintro t ⟨rfl⟩
    decide
  have hcalls : calls.map (fun call => (call.query.server, call.completion s)) =
      [(first.address, 4), (second.address, 14)] := by decide +kernel
  have hmem : ∀ call ∈ calls, (call.query.server, call.completion s) ∈
      [(first.address, 4), (second.address, 14)] := fun call hcall =>
    hcalls ▸ List.mem_map_of_mem hcall
  have hcalm : ∀ call ∈ calls, (call.transportCall s).cancels = false := fun _ _ => rfl
  have htriggered : TriggeredAt s calls (some 7) 7 := by
    refine ⟨.inl rfl, ?_, fun call hcall hcancels => ?_⟩
    · rintro t ⟨rfl⟩
      exact Nat.le_refl _
    · cases (hcalm call hcall).symm.trans hcancels
  have hapart : Apart s calls (some 7) 7 := by
    intro call hcall hover
    have hone := hmem call hcall
    rw [hover] at hone
    simp at hone
  have hend : undisturbed.2.time = 14 := by decide +kernel
  obtain ⟨-, -, hheld⟩ := Client.queryServers_canceled client surroundings [first, second] question
    session (by simp) (fun hrandom => by cases hrandom)
  obtain ⟨before, call, after, hsplit, -, -, hlate, -, houtcome⟩ :=
    (hheld (some 7)).2.2 7 hlive htriggered hapart (by rw [hend]; decide)
  have hsplit : calls = before ++ call :: after := hsplit
  have hserver : call.query.server = second.address := by
    have hone := hmem call (hsplit ▸ List.mem_append_right before List.mem_cons_self)
    rcases List.mem_pair.1 hone with hfirst | hsecond
    · rw [(Prod.mk.inj hfirst).2] at hlate
      exact absurd hlate (by decide)
    · exact (Prod.mk.inj hsecond).1
  rw [hserver] at houtcome
  exact ⟨hlive, htriggered, hapart, hend, before, call, after, hsplit, hserver, houtcome⟩

end StubResolver
