import StubResolver.Proofs.Lookup.Running

/-!
# What the servers come to

Each position in the list of servers has a finding, told by the cache or by the
attempts on the server. The findings are put down as if the lookup went through the
whole list, each server at the session that the one before it has left.
-/

namespace StubResolver.Lookup

variable {σ : Type}

/-! ## Findings -/

inductive Finding where
  | cached (message : Message)
  | answer (message : Message)
  | broken (error : ClientError)
  | unreachable (errors : List ClientError)

def Finding.isFinal (config : LookupConfig) : Finding → Bool
  | cached _ | broken _ => true
  | answer m =>
    m.responseCode = .noError || m.responseCode = .nameError || !config.continueOnDnsError
  | unreachable _ => false

def Finding.errors : Finding → List ClientError
  | unreachable errors => errors
  | _ => []

def Finding.ofOutcome : Except ClientError Message → Finding
  | .ok m => answer m
  | .error e => broken e

def transient? : Except ClientError Message → Option ClientError
  | .error e => if e.isTransient then some e else none
  | .ok _ => none

def asks (s : Setting σ) (server : NameServer) (number : Nat) :
    (left : Nat) → Session σ → List (Except ClientError Message × Session σ)
  | 0, _ => []
  | left + 1, session =>
    let first := ask s server number session
    first :: asks s server (number + 1) left first.2

def summary (tries : List (Except ClientError Message × Session σ)) (session : Session σ) :
    Finding × Session σ :=
  match tries.find? fun t => (transient? t.1).isNone with
  | some (outcome, after) => (.ofOutcome outcome, after)
  | none => (.unreachable (tries.filterMap fun t => transient? t.1),
      (tries.getLast?.map Prod.snd).getD session)

/-- The live entry that the cache has for the
question at the server, if it is used. -/
def consult (s : Setting σ) (server : NameServer) (session : Session σ) :
    Option Message × Session σ :=
  if s.config.useCache then
    let key := CacheKey.of server.address s.question
    let (response, cache) := session.cache.get key (s.surroundings.clock session.world)
    (response, { session with cache := cache })
  else (none, session)

def examine (s : Setting σ) (server : NameServer) (session : Session σ) : Finding × Session σ :=
  match consult s server session with
  | (some m, after) => (.cached m, after)
  | (none, after) => summary (asks s server 0 (s.config.retries + 1) after) after

structure Report (σ : Type) where
  server : SocketAddress
  finding : Finding
  session : Session σ

def reports (s : Setting σ) : List NameServer → Session σ → List (Report σ)
  | [], _ => []
  | server :: rest, session =>
    let (finding, after) := examine s server session
    ⟨server.address, finding, after⟩ :: reports s rest after

theorem runs_cached (s : Setting σ) (server : NameServer) (p : Progress σ) :
    Runs (cached s (.of server.address s.question)) p (consult s server p.session).1
      (consult s server p.session).2 := by
  unfold cached consult
  split <;> exact ⟨p.trail, rfl⟩

/-! ## Results -/

inductive Delivered (s : Setting σ) (server : SocketAddress) : Finding → LookupResult → Prop where
  | cached (m : Message) (trail : Option AuditTrail) :
      Delivered s server (.cached m) (.ok ⟨m, server, true, trail⟩)
  | broken (e : ClientError) (trail : Option AuditTrail) :
      Delivered s server (.broken e) (.error ⟨e, s.question, some server, trail, none⟩)
  | answer (m : Message) (trail : Option AuditTrail)
      (respond : m.responseCode = .noError ∨ s.config.throwDnsErrors = false) :
      Delivered s server (.answer m) (.ok ⟨m, server, false, trail⟩)
  | dnsError (m : Message) (trail : Option AuditTrail) (error : m.responseCode ≠ .noError)
      (throws : s.config.throwDnsErrors = true) :
      Delivered s server (.answer m)
        (.error ⟨.dnsError m.responseCode, s.question, some server, trail, some m⟩)

inductive Judged (s : Setting σ) (server : SocketAddress) :
    Finding × Session σ → Verdict → Session σ → Prop where
  | finished {finding : Finding} {after : Session σ} {result : LookupResult} {cache : Cache}
      (ends : finding.isFinal s.config = true) (delivered : Delivered s server finding result) :
      Judged s server (finding, after) (.finished result) { after with cache := cache }
  | nextServer {m : Message} {after : Session σ}
      (goesOn : (Finding.answer m).isFinal s.config = false) :
      Judged s server (.answer m, after) (.nextServer m) after

inductive Resolved (s : Setting σ) (server : SocketAddress) (tally : Tally) :
    Finding × Session σ → Outcome → Session σ → Prop where
  | final {finding : Finding} {after : Session σ} {result : LookupResult} {cache : Cache}
      (ends : finding.isFinal s.config = true) (delivered : Delivered s server finding result) :
      Resolved s server tally (finding, after) (.finished result) { after with cache := cache }
  | answer {m : Message} {after : Session σ} {next : Tally}
      (goesOn : (Finding.answer m).isFinal s.config = false)
      (last : next.lastError = some (server, m)) :
      Resolved s server tally (.answer m, after) (.goOn next) after
  | unreachable {errors : List ClientError} {after : Session σ} :
      Resolved s server tally (.unreachable errors, after) (.goOn (errors.foldl .add tally)) after

section

variable {s : Setting σ} {server : SocketAddress}

theorem leads_endWithDnsError {m : Message} (hcode : m.responseCode ≠ .noError)
    {p : Progress σ} (hserver : p.server = some server) :
    Leads (endWithDnsError s m server) p fun result session =>
      Delivered s server (.answer m) result ∧ session = p.session := by
  unfold endWithDnsError
  cases hthrows : s.config.throwDnsErrors with
  | true =>
      obtain ⟨trail, hfailure⟩ := runs_failure s (.dnsError m.responseCode) (some m) p
      rw [hserver] at hfailure
      refine hfailure.leads_bind fun _ => (runs_pure _ _).leads ?_
      exact ⟨.dnsError m trail hcode hthrows, rfl⟩
  | false =>
      obtain ⟨trail, hsucceed⟩ := runs_succeed m server false p
      exact hsucceed.leads ⟨.answer m trail (.inr hthrows), rfl⟩

theorem Finding.isFinal_answer (config : LookupConfig) (m : Message) :
    (answer m).isFinal config = !(config.continueOnDnsError && !m.responseCode.isFinal) := by
  simp [isFinal, ResponseCode.isFinal, Bool.or_comm]

theorem leads_judge_errorCode (key : CacheKey) {m : Message} (hcode : m.responseCode ≠ .noError)
    {p : Progress σ} (hserver : p.server = some server) :
    Leads (judge s server key (.ok m)) p (Judged s server (.answer m, p.session)) := by
  have herror := ResponseCode.isError_iff.2 hcode
  have hfinal := Finding.isFinal_answer s.config m
  cases hgoesOn : s.config.continueOnDnsError && !m.responseCode.isFinal with
  | true =>
      rw [hgoesOn] at hfinal
      exact ⟨_, p.session, ⟨_, run_judge_of_goesOn herror hgoesOn server key p⟩,
        .nextServer hfinal⟩
  | false =>
      rw [hgoesOn] at hfinal
      obtain ⟨result, session, ⟨trail, hend⟩, hdelivered, rfl⟩ :=
        leads_endWithDnsError (s := s) hcode (p := p.notingError m) hserver
      have hrun := run_judge_of_ends herror hgoesOn server key p
      rw [hend] at hrun
      exact ⟨_, p.session, ⟨_, hrun⟩, .finished hfinal hdelivered⟩

theorem leads_judge_noError (key : CacheKey) {m : Message} (hcode : m.responseCode = .noError)
    (p : Progress σ) :
    Leads (judge s server key (.ok m)) p (Judged s server (.answer m, p.session)) := by
  have hfinal : (Finding.answer m).isFinal s.config = true := by simp [Finding.isFinal, hcode]
  have herror := ResponseCode.isError_eq_false_iff.2 hcode
  have hrun := run_judge_of_noError (s := s) herror server key p
  obtain ⟨cache, hkept⟩ := keeping_eq s key m (p.noting (.responseHeader m.header m.size))
  rw [hkept] at hrun
  exact ⟨_, { p.session with cache := cache }, ⟨_, hrun⟩,
    .finished hfinal (.answer m _ (.inl hcode))⟩

theorem leads_judge (key : CacheKey) {outcome : Except ClientError Message}
    (hfirm : transient? outcome = none) {p : Progress σ} (hserver : p.server = some server) :
    Leads (judge s server key outcome) p
      (Judged s server (Finding.ofOutcome outcome, p.session)) := by
  cases outcome with
  | error e =>
      have hfirm : e.isTransient = false := by simpa [transient?] using hfirm
      have hrun := run_judge_of_firm (s := s) hfirm server key p
      rw [run_fail, hserver] at hrun
      exact ⟨_, p.session, ⟨_, hrun⟩, .finished rfl (.broken e _)⟩
  | ok m =>
      by_cases hcode : m.responseCode = .noError
      · exact leads_judge_noError key hcode p
      · exact leads_judge_errorCode key hcode hserver

theorem runs_judge_transient (key : CacheKey) {outcome : Except ClientError Message}
    {e : ClientError} (htransient : transient? outcome = some e) (p : Progress σ) :
    Runs (judge s server key outcome) p (.nextAttempt e) p.session := by
  cases outcome with
  | error e' =>
      obtain ⟨hagain, rfl⟩ : e'.isTransient = true ∧ e' = e := by
        simpa [transient?] using htransient
      exact ⟨_, run_judge_of_transient hagain server key p⟩
  | ok m => simp [transient?] at htransient

/-! ## A row of attempts -/

def Finding.again (e : ClientError) : Finding → Finding
  | unreachable errors => unreachable (e :: errors)
  | finding => finding

theorem summary_of_firm {outcome : Except ClientError Message} (hfirm : transient? outcome = none)
    (after session : Session σ) (rest : List (Except ClientError Message × Session σ)) :
    summary ((outcome, after) :: rest) session = (.ofOutcome outcome, after) := by
  simp [summary, hfirm]

theorem summary_of_transient {outcome : Except ClientError Message} {e : ClientError}
    (htransient : transient? outcome = some e) (after session : Session σ)
    (rest : List (Except ClientError Message × Session σ)) :
    summary ((outcome, after) :: rest) session =
      ((summary rest after).1.again e, (summary rest after).2) := by
  unfold summary
  rw [List.find?_cons_of_neg (by simp [htransient])]
  cases rest.find? fun t => (transient? t.1).isNone with
  | some t =>
      obtain ⟨outcome' | outcome', after'⟩ := t <;> rfl
  | none =>
      cases hlast : rest.getLast? <;> simp [Finding.again, htransient, List.getLast?_cons, hlast]

theorem Resolved.again {tally : Tally} {e : ClientError} {finding : Finding × Session σ}
    {outcome : Outcome} {session : Session σ}
    (h : Resolved s server (tally.add e) finding outcome session) :
    Resolved s server tally (finding.1.again e, finding.2) outcome session := by
  cases h with
  | @final finding after result cache ends delivered =>
      cases finding with
      | unreachable errors => cases ends
      | cached | answer | broken => exact .final ends delivered
  | answer goesOn last => exact .answer goesOn last
  | unreachable => exact .unreachable

theorem leads_attempts (server : NameServer) (key : CacheKey) (number : Nat) (tally : Tally)
    (left : Nat) {p : Progress σ} (h : NeverTriggered s.surroundings p.token)
    (hserver : p.server = some server.address) :
    Leads (attempts s server key number tally left) p
      (Resolved s server.address tally
        (summary (asks s server number left p.session) p.session)) := by
  induction left generalizing number tally p with
  | zero => exact (runs_pure _ _).leads .unreachable
  | succ left ih =>
      unfold attempts asks
      refine (runs_isCanceled h).leads_bind fun trail => ?_
      rw [if_neg Bool.false_ne_true]
      refine (runs_attempt (p := { p with trail := trail }) h server number).leads_bind
        fun trail => ?_
      rcases hask : ask s server number p.session with ⟨outcome, after⟩
      dsimp only
      cases houtcome : transient? outcome with
      | some e =>
          refine (runs_judge_transient key houtcome _).leads_bind fun trail => ?_
          rw [summary_of_transient houtcome]
          exact (ih (number + 1) (tally.add e)
            (p := { p with session := after, trail := trail }) h hserver).mono
            fun _ _ hresolved => hresolved.again
      | none =>
          have hjudge := leads_judge (s := s) key houtcome
            (p := { p with session := after, trail := trail }) hserver
          rw [summary_of_firm houtcome]
          refine hjudge.bind fun verdict session trail hjudged => ?_
          generalize Finding.ofOutcome outcome = finding at hjudged ⊢
          cases hjudged with
          | finished ends delivered => exact (runs_pure _ _).leads (.final ends delivered)
          | nextServer goesOn => exact (runs_pure _ _).leads (.answer goesOn rfl)

theorem length_errors_of_unreachable (server : NameServer) (number left : Nat)
    {session : Session σ} {errors : List ClientError}
    (h : (summary (asks s server number left session) session).1 = .unreachable errors) :
    errors.length = left := by
  induction left generalizing number session errors with
  | zero =>
      obtain rfl := Finding.unreachable.inj h
      rfl
  | succ left ih =>
      unfold asks at h
      rcases hask : ask s server number session with ⟨outcome, after⟩
      rw [hask] at h
      dsimp only at h
      cases houtcome : transient? outcome with
      | some e =>
          rw [summary_of_transient houtcome] at h
          cases hrest : (summary (asks s server (number + 1) left after) after).1 with
          | unreachable errors' =>
              rw [hrest] at h
              obtain rfl := Finding.unreachable.inj h
              rw [List.length_cons, ih (number + 1) hrest]
          | cached | answer | broken => simp [hrest, Finding.again] at h
      | none =>
          rw [summary_of_firm houtcome] at h
          cases outcome <;> simp [Finding.ofOutcome] at h

end

end StubResolver.Lookup
