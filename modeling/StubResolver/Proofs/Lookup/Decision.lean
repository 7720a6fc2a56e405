import StubResolver.Lookup.Client
import StubResolver.Proofs.Lookup.Reports
import StubResolver.Proofs.Lookup.Running

/-!
# What a lookup comes to

The first final finding is the result. Where there is none, the last response with an
error code is; and where there is none of these either, all attempts have failed, and
the result tells whether all of them timed out.
-/

namespace StubResolver.Lookup

variable {σ : Type}

def Finding.IsUnreachable (finding : Finding) : Prop :=
  ∃ errors, finding = .unreachable errors

/-- What the reports of all servers decide: the result, and the session that the
lookup leaves. Only the cache of that session may differ from the one that the
deciding report leaves, so nothing is sent after it. -/
inductive Decided (s : Setting σ) (start : Session σ) (all : List (Report σ)) :
    LookupResult → Session σ → Prop where
  | final {before after : List (Report σ)} {r : Report σ} {result : LookupResult} {cache : Cache}
      (split : all = before ++ r :: after)
      (goesOn : ∀ r' ∈ before, r'.finding.isFinal s.config = false)
      (ends : r.finding.isFinal s.config = true)
      (delivered : Delivered s r.server r.finding result) :
      Decided s start all result { r.session with cache := cache }
  | lastError {before after : List (Report σ)} {r last : Report σ} {m : Message}
      {result : LookupResult} (split : all = before ++ r :: after)
      (goesOn : ∀ r' ∈ all, r'.finding.isFinal s.config = false)
      (answer : r.finding = .answer m)
      (unreachable : ∀ r' ∈ after, r'.finding.IsUnreachable)
      (delivered : Delivered s r.server r.finding result) (atEnd : all.getLast? = some last) :
      Decided s start all result last.session
  | timedOut {last : Report σ} {trail : Option AuditTrail}
      (unreachable : ∀ r ∈ all, r.finding.IsUnreachable)
      (timeouts : ∀ r ∈ all, ∀ e ∈ r.finding.errors, e = .timeout)
      (atEnd : all.getLast? = some last) :
      Decided s start all
        (.error ⟨.connectionTimeout, s.question, some last.server, trail, none⟩) last.session
  | noConnection {last : Report σ} {trail : Option AuditTrail}
      (unreachable : ∀ r ∈ all, r.finding.IsUnreachable)
      (other : ∃ r ∈ all, ∃ e ∈ r.finding.errors, e ≠ .timeout)
      (atEnd : all.getLast? = some last) :
      Decided s start all
        (.error ⟨.noConnection, s.question, some last.server, trail, none⟩) last.session
  | noServers {trail : Option AuditTrail} (none : all = []) :
      Decided s start all (.error ⟨.noServers, s.question, .none, trail, .none⟩) start

/-! ## What the servers so far add up to -/

structure Counted (s : Setting σ) (done : List (Report σ)) (tally : Tally) : Prop where
  goesOn : ∀ r ∈ done, r.finding.isFinal s.config = false
  tried : ∀ r ∈ done, r.finding.IsUnreachable → r.finding.errors ≠ []
  tally :
    (∃ before after r m, done = before ++ r :: after ∧ r.finding = .answer m ∧
      (∀ r' ∈ after, r'.finding.IsUnreachable) ∧ tally.lastError = some (r.server, m)) ∨
    ((∀ r ∈ done, r.finding.IsUnreachable) ∧
      tally = (done.flatMap fun r => r.finding.errors).foldl .add .empty)

theorem counted_nil (s : Setting σ) : Counted s [] .empty where
  goesOn := by simp
  tried := by simp
  tally := .inr ⟨by simp, rfl⟩

theorem foldl_add (errors : List ClientError) (tally : Tally) :
    errors.foldl .add tally =
      { tally with
        failures := tally.failures + errors.length
        timeouts := tally.timeouts + errors.count .timeout } := by
  induction errors generalizing tally with
  | nil => rfl
  | cons e errors ih =>
      rw [List.foldl_cons, ih, List.length_cons, List.count_cons]
      by_cases h : e = .timeout
      · simp [Tally.add, h]
        omega
      · simp [Tally.add, h]
        omega

section

variable {s : Setting σ} {done : List (Report σ)} {tally : Tally}

theorem Counted.answer (h : Counted s done tally) {r : Report σ} {m : Message} {next : Tally}
    (hfinding : r.finding = .answer m) (hgoesOn : r.finding.isFinal s.config = false)
    (hlast : next.lastError = some (r.server, m)) : Counted s (done ++ [r]) next where
  goesOn := List.forall_mem_append.2 ⟨h.goesOn, List.forall_mem_singleton.2 hgoesOn⟩
  tried := by
    refine List.forall_mem_append.2 ⟨h.tried, List.forall_mem_singleton.2 ?_⟩
    rintro ⟨errors, herrors⟩
    simp [hfinding] at herrors
  tally := .inl ⟨done, [], r, m, rfl, hfinding, by simp, hlast⟩

theorem Counted.unreachable (h : Counted s done tally) {r : Report σ} {errors : List ClientError}
    (hfinding : r.finding = .unreachable errors) (htried : errors ≠ []) :
    Counted s (done ++ [r]) (errors.foldl .add tally) where
  goesOn := by
    refine List.forall_mem_append.2 ⟨h.goesOn, List.forall_mem_singleton.2 ?_⟩
    rw [hfinding]
    rfl
  tried := by
    refine List.forall_mem_append.2 ⟨h.tried, List.forall_mem_singleton.2 fun _ => ?_⟩
    rwa [hfinding]
  tally := by
    have hr : r.finding.IsUnreachable := ⟨errors, hfinding⟩
    rcases h.tally with ⟨before, after, r', m, hdone, hanswer, hafter, hlast⟩ | ⟨hdone, htally⟩
    · refine .inl ⟨before, after ++ [r], r', m, by simp [hdone], hanswer, ?_, ?_⟩
      · exact List.forall_mem_append.2 ⟨hafter, List.forall_mem_singleton.2 hr⟩
      · rw [foldl_add]
        exact hlast
    · refine .inr ⟨?_, ?_⟩
      · exact List.forall_mem_append.2 ⟨hdone, List.forall_mem_singleton.2 hr⟩
      · rw [List.flatMap_append, List.foldl_append, ← htally, List.flatMap_singleton, hfinding]
        rfl

theorem Counted.resolved (h : Counted s done tally) {server : SocketAddress}
    {found : Finding × Session σ} {next : Tally} {session : Session σ}
    (hresolved : Resolved s server tally found (.goOn next) session)
    (htried : ∀ errors, found.1 = .unreachable errors → errors ≠ []) :
    Counted s (done ++ [⟨server, found.1, found.2⟩]) next ∧ session = found.2 := by
  cases hresolved with
  | answer goesOn last => exact ⟨h.answer rfl goesOn last, rfl⟩
  | unreachable => exact ⟨h.unreachable rfl (htried _ rfl), rfl⟩

theorem Counted.timeouts_iff (h : Counted s done tally)
    (hunreachable : ∀ r ∈ done, r.finding.IsUnreachable) (hne : done ≠ [])
    (htally : tally = (done.flatMap fun r => r.finding.errors).foldl .add .empty) :
    (0 < tally.failures ∧ tally.failures = tally.timeouts) ↔
      ∀ r ∈ done, ∀ e ∈ r.finding.errors, e = .timeout := by
  have hpos : 0 < (done.flatMap fun r => r.finding.errors).length := by
    obtain ⟨r, hr⟩ := List.exists_mem_of_ne_nil done hne
    obtain ⟨e, he⟩ := List.exists_mem_of_ne_nil _ (h.tried r hr (hunreachable r hr))
    exact List.length_pos_of_mem (List.mem_flatMap.2 ⟨r, hr, he⟩)
  rw [htally, foldl_add]
  simp only [Tally.empty, Nat.zero_add, hpos, true_and]
  rw [eq_comm, List.count_eq_length]
  simp only [List.mem_flatMap, forall_exists_index, and_imp]
  constructor
  · intro hall r hr e he
    exact (hall e r hr he).symm
  · intro hall e r hr he
    exact (hall r hr e he).symm

/-! ## The walk over the servers -/

variable {start : Session σ} {p : Progress σ}

theorem conclude_decided (h : Counted s done tally) {last : Report σ}
    (hlast : done.getLast? = some last) (hserver : p.server = some last.server)
    (hsession : p.session = last.session) :
    Decided s start done ((conclude s tally).run p).1 ((conclude s tally).run p).2.session := by
  unfold conclude
  rcases h.tally with ⟨before, after, r, m, hdone, hanswer, hafter, htally⟩ | ⟨hdone, htally⟩
  · have hr : r ∈ done := by simp [hdone]
    have hcode : m.responseCode ≠ .noError := by
      have hgoesOn := h.goesOn r hr
      intro hcode
      simp [hanswer, Finding.isFinal, hcode] at hgoesOn
    rw [htally]
    obtain ⟨result, session, ⟨trail, hrun⟩, hdelivered, rfl⟩ :=
      leads_endWithDnsError (s := s) (p := { p with server := some r.server }) hcode rfl
    simp only [run_bind, run_modify, hrun]
    rw [← hanswer] at hdelivered
    rw [hsession]
    exact .lastError hdone h.goesOn hanswer hafter hdelivered hlast
  · have hlastError : tally.lastError = none := by
      rw [htally, foldl_add]
      rfl
    have hne : done ≠ [] := by
      rintro rfl
      simp at hlast
    have hiff := h.timeouts_iff hdone hne htally
    rw [hlastError]
    dsimp only
    split
    · rename_i htimeouts
      obtain ⟨trail, trail', hrun⟩ := runs_fail s .connectionTimeout p
      rw [hrun, hserver, hsession]
      exact .timedOut hdone (hiff.1 htimeouts) hlast
    · rename_i htimeouts
      obtain ⟨trail, trail', hrun⟩ := runs_fail s .noConnection p
      rw [hrun, hserver, hsession]
      rw [hiff] at htimeouts
      simp only [not_forall] at htimeouts
      obtain ⟨r, hr, e, he, hother⟩ := htimeouts
      exact .noConnection hdone ⟨r, hr, e, he, hother⟩ hlast

theorem run_walk_of_cached (tally : Tally) (h : NeverTriggered s.surroundings p.token)
    {server : NameServer} {m : Message} {after : Session σ}
    (hconsult : consult s server p.session = (some m, after)) (rest : List NameServer) :
    ∃ trail trail', (walk s tally (server :: rest)).run p =
      (.ok ⟨m, server.address, true, trail⟩,
        ⟨after, p.token, trail', some server.address⟩) := by
  have hlive : p.isCanceled = false := h.isTriggered_eq_false _
  obtain ⟨trail, hcached⟩ := runs_cached s server { p with server := some server.address }
  rw [run_walk_of_live _ _ _ hlive]
  dsimp only at hcached ⊢
  rw [hcached, hconsult]
  exact ⟨_, _, rfl⟩

theorem run_walk_of_asked (tally : Tally) (h : NeverTriggered s.surroundings p.token)
    {server : NameServer} {after : Session σ}
    (hconsult : consult s server p.session = (none, after)) (rest : List NameServer) :
    ∃ outcome session trail,
      Resolved s server.address tally
        (summary (asks s server 0 (s.config.retries + 1) after) after) outcome session ∧
      (walk s tally (server :: rest)).run p =
        match outcome with
        | .finished result => (result, ⟨session, p.token, trail, some server.address⟩)
        | .goOn next => (walk s next rest).run ⟨session, p.token, trail, some server.address⟩ := by
  have hlive : p.isCanceled = false := h.isTriggered_eq_false _
  obtain ⟨trail, hcached⟩ := runs_cached s server { p with server := some server.address }
  obtain ⟨outcome, session, ⟨trail, hrun⟩, hresolved⟩ :=
    leads_attempts server (.of server.address s.question) 0 tally (s.config.retries + 1)
      (p := ⟨after, p.token, trail, some server.address⟩) h rfl
  refine ⟨outcome, session, trail, hresolved, ?_⟩
  rw [run_walk_of_live _ _ _ hlive]
  dsimp only at hcached ⊢
  rw [hcached, hconsult]
  dsimp only at hrun ⊢
  rw [hrun]
  cases outcome <;> rfl

theorem walk_decided (h : NeverTriggered s.surroundings p.token) (hcounted : Counted s done tally)
    (hlast : ∀ last, done.getLast? = some last →
      p.server = some last.server ∧ p.session = last.session)
    (servers : List NameServer) (hne : done = [] → servers ≠ []) :
    Decided s start (done ++ reports s servers p.session) ((walk s tally servers).run p).1
      ((walk s tally servers).run p).2.session := by
  -- The servers that are done carry the invariant, and the induction is on those that are left.
  induction servers generalizing done tally p with
  | nil =>
      have hdone : done ≠ [] := fun hdone => hne hdone rfl
      obtain ⟨hserver, hsession⟩ := hlast _ (List.getLast?_eq_some_getLast hdone)
      rw [reports, List.append_nil]
      exact conclude_decided hcounted (List.getLast?_eq_some_getLast hdone) hserver hsession
  | cons server rest ih =>
      unfold reports examine
      rcases hconsult : consult s server p.session with ⟨_ | m, after⟩
      · obtain ⟨outcome, session, trail, hresolved, hrun⟩ :=
          run_walk_of_asked tally h hconsult rest
        have htried : ∀ errors, (summary (asks s server 0 (s.config.retries + 1) after) after).1 =
            .unreachable errors → errors ≠ [] := by
          rintro _ hfound rfl
          have hlength : 0 = s.config.retries + 1 :=
            length_errors_of_unreachable server 0 (s.config.retries + 1) hfound
          omega
        rw [hrun]
        dsimp only
        generalize summary (asks s server 0 (s.config.retries + 1) after) after = found
          at hresolved htried ⊢
        cases outcome with
        | finished result =>
            cases hresolved with
            | final ends delivered => exact .final rfl hcounted.goesOn ends delivered
        | goOn next =>
            obtain ⟨hnext, rfl⟩ := hcounted.resolved hresolved htried
            rw [List.append_cons]
            refine ih (p := ⟨found.2, p.token, trail, some server.address⟩) h hnext ?_ (by simp)
            intro last hlast
            simp only [List.getLast?_append, List.getLast?_singleton, Option.some_or,
              Option.some.injEq] at hlast
            rw [← hlast]
            exact ⟨rfl, rfl⟩
      · obtain ⟨trail, trail', hrun⟩ := run_walk_of_cached tally h hconsult rest
        rw [hrun]
        have hafter : after = { after with cache := after.cache } := rfl
        rw [hafter]
        exact .final rfl hcounted.goesOn rfl (.cached m trail)

end

theorem lookup_decided (s : Setting σ) (p : Progress σ) (horder : s.config.randomOrder = false)
    (htoken : NeverTriggered s.surroundings p.token) (hserver : p.server = none)
    (servers : List NameServer) :
    Decided s p.session (reports s servers p.session) ((lookup s servers).run p).1
      ((lookup s servers).run p).2.session := by
  cases servers with
  | nil =>
      obtain ⟨trail, trail', hrun⟩ := runs_fail s .noServers p
      unfold lookup
      rw [if_pos (by rfl), hrun, hserver]
      exact .noServers rfl
  | cons server rest =>
      rw [run_lookup_of_servers (List.cons_ne_nil _ _), order_eq_self horder]
      exact walk_decided (p := p.noting _) htoken (counted_nil s) (by simp) (server :: rest)
        (by simp)

end StubResolver.Lookup

namespace StubResolver

open Lookup

/-- With the servers in their order and a token that nobody triggers, the reports of
the servers decide what a lookup gives, and what it has done by then. -/
theorem Client.queryServers_decided {σ : Type} (c : Client) (surroundings : Surroundings σ)
    (servers : List NameServer) (question : Question) (token : Token) (session : Session σ)
    (horder : c.config.randomOrder = false) (htoken : NeverTriggered surroundings token) :
    let s : Setting σ := ⟨surroundings, c.config, c.registry, question⟩
    Decided s session (reports s servers session)
      (c.queryServers surroundings servers question token session).1
      (c.queryServers surroundings servers question token session).2 := by
  intro s
  exact lookup_decided s ⟨session, token, if c.config.auditTrail then some [] else none, none⟩
    horder htoken rfl servers

/-- The first server refuses, and the second one
does not answer: the refusal is the result. -/
theorem Client.queryServers_refused_then_silent :
    let config : LookupConfig :=
      { LookupConfig.default with retries := 0, randomOrder := false, useCache := false }
    let client : Client := ⟨[], config, .empty⟩
    let refusing : NameServer := .ofAddress (.v4 ⟨#v[192, 0, 2, 1]⟩ 53)
    let silent : NameServer := .ofAddress (.v4 ⟨#v[192, 0, 2, 2]⟩ 53)
    let surroundings : Surroundings Unit :=
      { query := fun _ server _ _ world =>
          (⟨false, if server = refusing.address
            then .now (.ok #[0, 0, 0x80, 0x05, 0, 0, 0, 0, 0, 0, 0, 0]) else .never⟩, world)
        clock := fun _ => 0
        requestId := fun _ => 0
        shuffle := id }
    let question : Question := ⟨.root, .a, .internet⟩
    let session : Session Unit := .start () (.empty .default false 0)
    let s : Setting Unit := ⟨surroundings, config, .empty, question⟩
    let outcome := client.queryServers surroundings [refusing, silent] question .unheld session
    Decided s session (reports s [refusing, silent] session) outcome.1 outcome.2 ∧
      outcome.1.toOption.map (fun r => (r.message.responseCode, r.server)) =
        some (⟨5⟩, refusing.address) ∧ outcome.2.queries.length = 2 := by
  intro config client refusing silent surroundings question session s outcome
  have hdecided := Client.queryServers_decided client surroundings [refusing, silent] question
    .unheld session rfl (neverTriggered_unheld _)
  exact ⟨hdecided, by decide +kernel, by decide +kernel⟩

end StubResolver
