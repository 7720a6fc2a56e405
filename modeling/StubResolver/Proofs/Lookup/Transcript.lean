import StubResolver.Proofs.Lookup.Course

/-!
# The transcript of a lookup

A lookup visits a first part of the servers in their order, and makes the attempts on
each in a row. Its result is what the cache holds, or what came of one of the
attempts, or tells of a failure. An error that no further attempt would mend is the
end and the result.
-/

namespace StubResolver.Lookup

variable {σ : Type}

inductive Sourced (s : Setting σ) (log : List (Attempt σ)) (q : Progress σ) :
    LookupResult → Prop where
  | cached {server : SocketAddress} {e : CacheEntry} {now : Instant}
      (held : (CacheKey.of server s.question, e) ∈ q.session.cache.entries) :
      Sourced s log q (.ok ⟨e.responseAt now, server, true, q.trail⟩)
  | heard {a : Attempt σ} {m : Message} (attempt : a ∈ log) (outcome : a.outcome = .ok m) :
      Sourced s log q (.ok ⟨m, a.server.address, false, q.trail⟩)
  | dnsError {a : Attempt σ} {m : Message} (attempt : a ∈ log) (outcome : a.outcome = .ok m) :
      Sourced s log q (.error
        ⟨.dnsError m.responseCode, s.question, some a.server.address, q.trail, some m⟩)
  | failed {e : ClientError} {server : Option SocketAddress} :
      Sourced s log q (.error ⟨e, s.question, server, q.trail, none⟩)

def Attempt.Breaks (a : Attempt σ) (e : ClientError) : Prop :=
  a.outcome = .error e ∧ e.isTransient = false

structure Ended (s : Setting σ) (log : List (Attempt σ)) (q : Progress σ)
    (result : LookupResult) : Prop where
  sourced : Sourced s log q result
  broken : ∀ before a after e, log = before ++ a :: after → a.Breaks e → after = [] ∧
    result = .error ⟨e, s.question, some a.server.address, q.trail, none⟩

structure Visit (σ : Type) where
  server : NameServer
  attempts : List (Attempt σ)

structure Visit.Proper (s : Setting σ) (v : Visit σ) : Prop where
  numbers : v.attempts.map Attempt.number = List.range v.attempts.length
  few : v.attempts.length ≤ s.config.retries + 1
  proper : ∀ a ∈ v.attempts, a.server = v.server ∧ a.Proper s

def attemptsOf (visits : List (Visit σ)) : List (Attempt σ) := visits.flatMap Visit.attempts

structure Transcript (s : Setting σ) (servers : List NameServer) (p : Progress σ)
    (visits : List (Visit σ)) (result : LookupResult) (q : Progress σ) : Prop where
  visited : visits.map Visit.server <+: s.order servers
  proper : ∀ v ∈ visits, v.Proper s
  course : Course s p (attemptsOf visits) q
  ended : Ended s (attemptsOf visits) q result

section

variable {s : Setting σ} {p q r : Progress σ} {log log' : List (Attempt σ)} {a : Attempt σ}

/-! ## Ends -/

theorem Course.calm (h : Course s p log q) (h' : Course s q [] r) : Course s p log r := by
  simpa using h.trans h'

theorem course_ended (size : Option Nat) : Course s p [] (p.noting (.ended size)) := .noting _ rfl

theorem sourced_endWithDnsError {m : Message} (ha : a ∈ log) (houtcome : a.outcome = .ok m)
    (hserver : p.server = some a.server.address) :
    ∃ result q, (endWithDnsError s m a.server.address).run p = (result, q) ∧
      Sourced s log q result ∧ Course s p [] q ∧ q.server = p.server := by
  unfold endWithDnsError
  cases s.config.throwDnsErrors with
  | true =>
      let f : LookupFailure := ⟨.dnsError m.responseCode, s.question, p.server,
        (p.noting (.ended none)).trail, some m⟩
      refine ⟨.error f, p.noting (.ended none), rfl, ?_, course_ended none, rfl⟩
      unfold f
      rw [hserver]
      exact .dnsError ha houtcome
  | false =>
      exact ⟨_, _, run_succeed m a.server.address false p, .heard ha houtcome, course_ended _, rfl⟩

theorem Ended.of_unbroken {result : LookupResult} (h : Sourced s log q result)
    (hunbroken : ∀ a ∈ log, ∀ e, ¬ a.Breaks e) : Ended s log q result where
  sourced := h
  broken before a after e hlog hbreaks := by
    refine absurd hbreaks (hunbroken a ?_ e)
    simp [hlog]

theorem Sourced.prepend {result : LookupResult} (past : List (Attempt σ))
    (h : Sourced s log q result) : Sourced s (past ++ log) q result := by
  cases h with
  | cached held => exact .cached held
  | heard attempt outcome => exact .heard (List.mem_append_right _ attempt) outcome
  | dnsError attempt outcome => exact .dnsError (List.mem_append_right _ attempt) outcome
  | failed => exact .failed

theorem Ended.prepend {result : LookupResult} {past : List (Attempt σ)}
    (h : Ended s log q result) (hunbroken : ∀ a ∈ past, ∀ e, ¬ a.Breaks e) :
    Ended s (past ++ log) q result where
  sourced := h.sourced.prepend past
  broken before a after e hlog hbreaks := by
    -- The attempt that breaks is not one of the past.
    rcases List.append_eq_append_iff.1 hlog with ⟨middle, hbefore, hrest⟩ | ⟨middle, hpast, hrest⟩
    · exact h.broken middle a after e hrest hbreaks
    · cases middle with
      | nil => exact h.broken [] a after e hrest.symm hbreaks
      | cons a' middle =>
          obtain ⟨rfl, -⟩ := List.cons.inj hrest
          exact absurd hbreaks (hunbroken a (by simp [hpast]) e)

/-! ## Judging an attempt -/

inductive Judgment (s : Setting σ) (a : Attempt σ) (q : Progress σ) : Verdict → Prop where
  | broken {e : ClientError} (breaks : a.Breaks e) :
      Judgment s a q
        (.finished (.error ⟨e, s.question, some a.server.address, q.trail, none⟩))
  | response {m : Message} {result : LookupResult} (outcome : a.outcome = .ok m)
      (sourced : Sourced s [a] q result) : Judgment s a q (.finished result)
  | nextServer {m : Message} (outcome : a.outcome = .ok m) : Judgment s a q (.nextServer m)
  | nextAttempt {e : ClientError} (outcome : a.outcome = .error e)
      (transient : e.isTransient = true) : Judgment s a q (.nextAttempt e)

theorem Course.notingError (h : Course s p log q) (m : Message) :
    Course s p log (q.notingError m) :=
  (h.calm (.noting _ rfl)).calm (.noting _ rfl)

theorem Course.keeping {m : Message} (h : Course s p [a] q) (houtcome : a.outcome = .ok m) :
    Course s p [a] (q.keeping s (.of a.server.address s.question) m) := by
  obtain ⟨hconfig, hentries⟩ := q.session.cache.put_entries (.of a.server.address s.question) m
    (s.surroundings.clock q.session.world)
  unfold Progress.keeping
  split
  · rw [run_store]
    refine ⟨?_, h.ids, h.idsUsed, h.trail, hconfig.trans h.config, fun entry hentry => ?_⟩
    · rw [← List.append_nil (List.flatMap _ _)]
      exact h.calls.trans (.none ⟨rfl, rfl, rfl, rfl⟩)
    · rcases hentries entry hentry with hentry | ⟨validFor, hvalidity, rfl⟩
      · exact h.entries entry hentry
      · rw [h.config] at hvalidity
        exact .inr ⟨a, List.mem_singleton_self a, houtcome, rfl, hvalidity⟩
  · exact h

theorem judged (h : Course s p [a] q) (hserver : q.server = some a.server.address) :
    ∃ verdict r, (judge s a.server.address (.of a.server.address s.question) a.outcome).run q =
        (verdict, r) ∧ Judgment s a r verdict ∧ Course s p [a] r ∧ r.server = q.server := by
  have ha := List.mem_singleton_self a
  generalize houtcome : a.outcome = outcome
  cases appraised s outcome with
  | @transient e htransient =>
      rw [run_judge_of_transient htransient]
      exact ⟨.nextAttempt e, q.noting (.transportError a.server.address e), rfl,
        .nextAttempt houtcome htransient, h.calm (.noting _ rfl), rfl⟩
  | firm hfirm =>
      rw [run_judge_of_firm hfirm, run_fail, hserver]
      exact ⟨_, _, rfl, .broken ⟨houtcome, hfirm⟩, h.calm (course_ended none), hserver⟩
  | @goesOn m herror hgoesOn =>
      rw [run_judge_of_goesOn herror hgoesOn]
      exact ⟨.nextServer m, _, rfl, .nextServer houtcome,
        (h.notingError m).calm (.noting _ rfl), rfl⟩
  | @ends m herror hends =>
      obtain ⟨result, r, hrun, hsourced, hcourse, hstill⟩ := sourced_endWithDnsError (s := s)
        (p := q.notingError m) ha houtcome hserver
      rw [run_judge_of_ends herror hends, hrun]
      exact ⟨.finished result, r, rfl, .response houtcome hsourced,
        (h.notingError m).calm hcourse, hstill⟩
  | @noError m hclean =>
      have hkept := (h.calm (.noting (.responseHeader m.header m.size) rfl)).keeping houtcome
      obtain ⟨cache, hkeeping⟩ := keeping_eq s (.of a.server.address s.question) m
        (q.noting (.responseHeader m.header m.size))
      rw [run_judge_of_noError hclean, run_succeed]
      rw [hkeeping] at hkept ⊢
      exact ⟨_, _, rfl, .response houtcome (.heard ha houtcome), hkept.calm (course_ended _), rfl⟩

/-! ## The attempts on a server -/

inductive Left (s : Setting σ) (log : List (Attempt σ)) (tally : Tally) (q : Progress σ) :
    Outcome → Prop where
  | finished {result : LookupResult} (ended : Ended s log q result) :
      Left s log tally q (.finished result)
  | goOn {next : Tally} (unbroken : ∀ a ∈ log, ∀ e, ¬ a.Breaks e)
      (last : next.lastError = tally.lastError ∨ ∃ a ∈ log, ∃ m, a.outcome = .ok m ∧
        next.lastError = some (a.server.address, m)) :
      Left s log tally q (.goOn next)

theorem Attempt.not_breaks_of_ok {m : Message} (houtcome : a.outcome = .ok m) (e : ClientError) :
    ¬ a.Breaks e := fun hbreaks => by
  cases houtcome.symm.trans hbreaks.1

theorem Attempt.not_breaks_of_transient {e : ClientError} (houtcome : a.outcome = .error e)
    (htransient : e.isTransient = true) (e' : ClientError) : ¬ a.Breaks e' := by
  rintro ⟨houtcome', hfirm⟩
  cases houtcome.symm.trans houtcome'
  cases htransient.symm.trans hfirm

theorem Judgment.left_of_finished {tally : Tally} {result : LookupResult}
    (h : Judgment s a q (.finished result)) : Left s [a] tally q (.finished result) := by
  cases h with
  | response outcome sourced =>
      refine .finished (.of_unbroken sourced ?_)
      simpa using Attempt.not_breaks_of_ok outcome
  | @broken e breaks =>
      refine .finished ⟨.failed, fun before a' after e' hlog hbreaks => ?_⟩
      cases before with
      | nil =>
          obtain ⟨rfl, rfl⟩ := List.cons.inj hlog
          cases breaks.1.symm.trans hbreaks.1
          exact ⟨rfl, rfl⟩
      | cons b before => simp at hlog

theorem Judgment.left_of_nextServer {tally : Tally} {m : Message}
    (h : Judgment s a q (.nextServer m)) :
    Left s [a] tally q (.goOn { tally with lastError := some (a.server.address, m) }) := by
  cases h with
  | nextServer outcome =>
      refine .goOn ?_ (.inr ⟨a, List.mem_singleton_self a, m, outcome, rfl⟩)
      simpa using Attempt.not_breaks_of_ok outcome

theorem Left.again {tally : Tally} {e : ClientError} {outcome : Outcome}
    (h : Left s log (tally.add e) q outcome) (houtcome : a.outcome = .error e)
    (htransient : e.isTransient = true) : Left s (a :: log) tally q outcome := by
  have hunbroken : ∀ a' ∈ [a], ∀ e', ¬ a'.Breaks e' := by
    simpa using Attempt.not_breaks_of_transient houtcome htransient
  cases h with
  | finished ended => exact .finished (ended.prepend hunbroken)
  | goOn unbroken last =>
      refine .goOn (List.forall_mem_append.2 ⟨hunbroken, unbroken⟩) (last.imp_right ?_)
      rintro ⟨a', ha', hlast⟩
      exact ⟨a', List.mem_cons_of_mem a ha', hlast⟩

theorem attempts_left (server : NameServer) (number : Nat) (tally : Tally) (left : Nat)
    (hserver : p.server = some server.address) :
    ∃ log outcome q, (attempts s server (.of server.address s.question) number tally left).run p =
        (outcome, q) ∧ log.map Attempt.number = List.range' number log.length ∧
      log.length ≤ left ∧ (∀ a ∈ log, a.server = server ∧ a.Proper s) ∧ Course s p log q ∧
      q.server = some server.address ∧ Left s log tally q outcome := by
  induction left generalizing p number tally with
  | zero => exact ⟨[], .goOn tally, p, rfl, rfl, Nat.le_refl _, by simp, .refl p, hserver,
      .goOn (by simp) (.inl rfl)⟩
  | succ left ih =>
      cases hcanceled : p.isCanceled with
      | true =>
          rw [run_attempts_of_canceled _ _ _ _ _ hcanceled, run_fail]
          refine ⟨[], _, _, rfl, rfl, Nat.zero_le _, by simp, course_ended none, hserver, ?_⟩
          exact .finished (.of_unbroken .failed (by simp))
      | false =>
          obtain ⟨a, q, ha⟩ := attempted (s := s) server number hcanceled
          have hq := ha.still.trans hserver
          rw [← ha.server] at hq
          obtain ⟨verdict, r, hrun, hjudgment, hcourse, hr⟩ := judged ha.course hq
          have hr := hr.trans hq
          rw [ha.server] at hrun hr
          rw [run_attempts_of_live _ _ _ _ _ hcanceled, ha.run]
          dsimp only
          rw [hrun]
          have hone : ∀ a' ∈ [a], a'.server = server ∧ a'.Proper s := by
            simpa using ⟨ha.server, ha.proper⟩
          cases verdict with
          | finished result =>
              exact ⟨[a], _, r, rfl, by simp [ha.number], by simp, hone, hcourse, hr,
                hjudgment.left_of_finished⟩
          | nextServer m =>
              refine ⟨[a], _, r, rfl, by simp [ha.number], by simp, hone, hcourse, hr, ?_⟩
              rw [← ha.server]
              exact hjudgment.left_of_nextServer
          | nextAttempt e =>
              obtain ⟨log, outcome, q', hrest, hnumbers, hfew, hproper, hcourse', hq', hleft⟩ :=
                ih (number + 1) (tally.add e) hr
              cases hjudgment with
              | nextAttempt houtcome htransient =>
                  refine ⟨a :: log, outcome, q', hrest, ?_, Nat.succ_le_succ hfew,
                    List.forall_mem_append.2 ⟨hone, hproper⟩, hcourse.trans hcourse', hq',
                    hleft.again houtcome htransient⟩
                  rw [List.map_cons, ha.number, hnumbers, List.length_cons, List.range'_succ]

/-! ## The walk over the servers -/

structure Remembers (past : List (Attempt σ)) (tally : Tally) : Prop where
  unbroken : ∀ a ∈ past, ∀ e, ¬ a.Breaks e
  last : ∀ server m, tally.lastError = some (server, m) →
    ∃ a ∈ past, a.server.address = server ∧ a.outcome = .ok m

variable {past : List (Attempt σ)} {tally : Tally}

theorem Remembers.append {next : Tally} (h : Remembers past tally)
    (hleft : Left s log tally q (.goOn next)) : Remembers (past ++ log) next := by
  cases hleft with
  | goOn unbroken last =>
      refine ⟨List.forall_mem_append.2 ⟨h.unbroken, unbroken⟩, fun server m hnext => ?_⟩
      rcases last with hsame | ⟨a, ha, m', houtcome, hlast⟩
      · obtain ⟨a, ha, hfound⟩ := h.last server m (hsame.symm.trans hnext)
        exact ⟨a, List.mem_append_left _ ha, hfound⟩
      · cases hlast.symm.trans hnext
        exact ⟨a, List.mem_append_right _ ha, rfl, houtcome⟩

theorem conclude_ended (h : Remembers past tally) (p : Progress σ) :
    ∃ result q, (conclude s tally).run p = (result, q) ∧ Ended s past q result ∧
      Course s p [] q := by
  unfold conclude
  cases hlast : tally.lastError with
  | some last =>
      obtain ⟨server, m⟩ := last
      obtain ⟨a, ha, rfl, houtcome⟩ := h.last server m hlast
      dsimp only
      obtain ⟨result, q, hrun, hsourced, hcourse, -⟩ := sourced_endWithDnsError (s := s)
        (p := { p with server := some a.server.address }) ha houtcome rfl
      exact ⟨result, q, hrun, .of_unbroken hsourced h.unbroken,
        (Course.at_server _).calm hcourse⟩
  | none =>
      dsimp only
      split
      · exact ⟨_, _, run_fail s .connectionTimeout p, .of_unbroken .failed h.unbroken,
          course_ended none⟩
      · exact ⟨_, _, run_fail s .noConnection p, .of_unbroken .failed h.unbroken,
          course_ended none⟩

theorem course_cached (server : SocketAddress) (p : Progress σ) :
    ∃ found q, (cached s (.of server s.question)).run p = (found, q) ∧ q.server = p.server ∧
      Course s p [] q ∧ ∀ m, found = some m → ∃ e now,
        (CacheKey.of server s.question, e) ∈ q.session.cache.entries ∧ m = e.responseAt now := by
  unfold cached
  split
  · obtain ⟨hconfig, hentries⟩ := p.session.cache.get_entries (.of server s.question)
      (s.surroundings.clock p.session.world)
    refine ⟨_, _, rfl, rfl, .of_frame ⟨rfl, rfl, rfl, rfl⟩ rfl rfl hconfig hentries, fun m hm => ?_⟩
    obtain ⟨e, hmem, -, hm⟩ := Cache.mem_of_get hm
    exact ⟨e, _, hmem, hm⟩
  · exact ⟨none, p, rfl, rfl, .refl p, fun m hm => by cases hm⟩

theorem attemptsOf_cons (v : Visit σ) (visits : List (Visit σ)) :
    attemptsOf (v :: visits) = v.attempts ++ attemptsOf visits := rfl

theorem Visit.Proper.of_attempts {server : NameServer}
    (hnumbers : log.map Attempt.number = List.range' 0 log.length)
    (hfew : log.length ≤ s.config.retries + 1)
    (hproper : ∀ a ∈ log, a.server = server ∧ a.Proper s) : Visit.Proper s ⟨server, log⟩ :=
  ⟨hnumbers.trans List.range_eq_range'.symm, hfew, hproper⟩

theorem walk_of_live (server : NameServer) (rest : List NameServer) (tally : Tally)
    (hlive : p.isCanceled = false) :
    ∃ log outcome q, Visit.Proper s ⟨server, log⟩ ∧ Course s p log q ∧ Left s log tally q outcome ∧
      (walk s tally (server :: rest)).run p =
        match outcome with
        | .finished result => (result, q)
        | .goOn next => (walk s next rest).run q := by
  obtain ⟨found, p', hcached, hserver, hcourse, hfound⟩ := course_cached (s := s)
    server.address { p with server := some server.address }
  have hcourse := (Course.at_server (some server.address)).calm hcourse
  rw [run_walk_of_live _ _ _ hlive]
  dsimp only at hcached hserver ⊢
  rw [hcached]
  cases found with
  | some m =>
      obtain ⟨e, now, hheld, rfl⟩ := hfound m rfl
      dsimp only
      rw [run_succeed]
      refine ⟨[], .finished _, _, .of_attempts rfl (Nat.zero_le _) (by simp),
        (hcourse.calm (.noting _ rfl)).calm (course_ended _), .finished ?_, rfl⟩
      exact .of_unbroken (.cached hheld) (by simp)
  | none =>
      obtain ⟨log, outcome, q, hrun, hnumbers, hfew, hproper, hcourse', -, hleft⟩ :=
        attempts_left (s := s) server 0 tally (s.config.retries + 1) hserver
      refine ⟨log, outcome, q, .of_attempts hnumbers hfew hproper, hcourse.trans hcourse', hleft,
        ?_⟩
      dsimp only
      rw [hrun]
      cases outcome <;> rfl

theorem walk_ended (servers : List NameServer) (h : Remembers past tally) :
    ∃ visits result q, (walk s tally servers).run p = (result, q) ∧
      visits.map Visit.server <+: servers ∧ (∀ v ∈ visits, v.Proper s) ∧
      Course s p (attemptsOf visits) q ∧ Ended s (past ++ attemptsOf visits) q result := by
  -- The attempts on the servers before carry what the tally remembers.
  induction servers generalizing past tally p with
  | nil =>
      obtain ⟨result, q, hrun, hended, hcourse⟩ := conclude_ended (s := s) h p
      exact ⟨[], result, q, hrun, List.prefix_rfl, by simp, hcourse, by simpa [attemptsOf]⟩
  | cons server rest ih =>
      cases hcanceled : p.isCanceled with
      | true =>
          rw [run_walk_of_canceled _ _ _ hcanceled, run_fail]
          refine ⟨[], _, _, rfl, List.nil_prefix, by simp, course_ended none, ?_⟩
          exact .of_unbroken .failed (by simpa [attemptsOf] using h.unbroken)
      | false =>
          obtain ⟨log, outcome, q, hvisit, hcourse, hleft, hrun⟩ :=
            walk_of_live (s := s) server rest tally hcanceled
          rw [hrun]
          cases outcome with
          | finished result =>
              have hlog : attemptsOf [⟨server, log⟩] = log := List.append_nil log
              refine ⟨[⟨server, log⟩], result, q, rfl, List.prefix_append [server] rest,
                List.forall_mem_singleton.2 hvisit, ?_⟩
              rw [hlog]
              cases hleft with
              | finished ended => exact ⟨hcourse, ended.prepend h.unbroken⟩
          | goOn next =>
              obtain ⟨visits, result, r, hrest, hvisited, hvisits, hcourse', hended⟩ :=
                ih (p := q) (h.append hleft)
              refine ⟨⟨server, log⟩ :: visits, result, r, hrest,
                (List.prefix_cons_inj _).2 hvisited, List.forall_mem_cons.2 ⟨hvisit, hvisits⟩, ?_⟩
              rw [attemptsOf_cons, ← List.append_assoc]
              exact ⟨hcourse.trans hcourse', hended⟩

theorem lookup_transcript (s : Setting σ) (servers : List NameServer) (p : Progress σ) :
    ∃ visits, Transcript s servers p visits ((lookup s servers).run p).1
      ((lookup s servers).run p).2 := by
  by_cases hservers : servers = []
  · subst hservers
    exact ⟨[], List.nil_prefix, by simp, course_ended none,
      .of_unbroken .failed (by simp [attemptsOf])⟩
  · have hremembers : Remembers ([] : List (Attempt σ)) .empty := ⟨by simp, fun _ _ h => by cases h⟩
    let started := p.noting (.resolvedServers ((s.order servers).map NameServer.address))
    obtain ⟨visits, result, q, hrun, hvisited, hproper, hcourse, hended⟩ := walk_ended (s := s)
      (p := started) (s.order servers) hremembers
    have hstart : Course s p [] started := .noting _ rfl
    rw [run_lookup_of_servers hservers, hrun]
    exact ⟨visits, hvisited, hproper, hstart.trans hcourse, hended⟩

end

end StubResolver.Lookup
