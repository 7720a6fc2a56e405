import StubResolver.Proofs.Lookup.Steps

/-!
# The stages of a lookup as they run

Each stage is a few steps and then what is left of it, or a later stage. These
equations say which, case by case, so that a proof by induction on the stages never
opens them.
-/

namespace StubResolver.Lookup

variable {σ : Type} {s : Setting σ} {p : Progress σ} {m : Message} {e : ClientError}

/-! ## Single steps -/

def Progress.noting (p : Progress σ) (event : AuditEvent) : Progress σ :=
  { p with trail := p.trail.map (· ++ [event]) }

theorem run_record (event : AuditEvent) (p : Progress σ) :
    (record event).run p = ((), p.noting event) := rfl

theorem run_isCanceled (p : Progress σ) : isCanceled.run p = (p.isCanceled, p) := rfl

theorem run_fail (s : Setting σ) (e : ClientError) (p : Progress σ) :
    (fail s e).run p =
      (.error ⟨e, s.question, p.server, (p.noting (.ended none)).trail, none⟩,
        p.noting (.ended none)) := rfl

theorem run_succeed (m : Message) (server : SocketAddress) (fromCache : Bool) (p : Progress σ) :
    (succeed m server fromCache).run p =
      (.ok ⟨m, server, fromCache, (p.noting (.ended (some m.size))).trail⟩,
        p.noting (.ended (some m.size))) := rfl

theorem run_store (s : Setting σ) (key : CacheKey) (m : Message) (p : Progress σ) :
    (store s key m).run p =
      ((), { p with session := { p.session with
        cache := (p.session.cache.put key m (s.surroundings.clock p.session.world)).2 } }) := rfl

/-! ## Judging an attempt -/

inductive Appraisal (s : Setting σ) : Except ClientError Message → Prop where
  | transient {e : ClientError} (transient : e.isTransient = true) : Appraisal s (.error e)
  | firm {e : ClientError} (firm : e.isTransient = false) : Appraisal s (.error e)
  | goesOn {m : Message} (error : m.responseCode.isError = true)
      (goesOn : (s.config.continueOnDnsError && !m.responseCode.isFinal) = true) :
      Appraisal s (.ok m)
  | ends {m : Message} (error : m.responseCode.isError = true)
      (ends : (s.config.continueOnDnsError && !m.responseCode.isFinal) = false) :
      Appraisal s (.ok m)
  | noError {m : Message} (clean : m.responseCode.isError = false) : Appraisal s (.ok m)

theorem appraised (s : Setting σ) (outcome : Except ClientError Message) :
    Appraisal s outcome := by
  cases outcome with
  | error e =>
      cases htransient : e.isTransient with
      | true => exact .transient htransient
      | false => exact .firm htransient
  | ok m =>
      cases herror : m.responseCode.isError with
      | false => exact .noError herror
      | true =>
          cases hgoesOn : s.config.continueOnDnsError && !m.responseCode.isFinal with
          | true => exact .goesOn herror hgoesOn
          | false => exact .ends herror hgoesOn

theorem run_judge_of_transient (htransient : e.isTransient = true) (server : SocketAddress)
    (key : CacheKey) (p : Progress σ) :
    (judge s server key (.error e)).run p =
      (.nextAttempt e, p.noting (.transportError server e)) := by
  unfold judge
  dsimp only
  rw [htransient, if_pos rfl]
  rfl

theorem run_judge_of_firm (hfirm : e.isTransient = false) (server : SocketAddress)
    (key : CacheKey) (p : Progress σ) :
    (judge s server key (.error e)).run p =
      let ended := (fail s e).run p
      (.finished ended.1, ended.2) := by
  unfold judge
  dsimp only
  rw [hfirm, if_neg Bool.false_ne_true]
  rfl

def Progress.notingError (p : Progress σ) (m : Message) : Progress σ :=
  (p.noting (.responseHeader m.header m.size)).noting (.responseError m.responseCode)

theorem run_judge_of_goesOn (herror : m.responseCode.isError = true)
    (hgoesOn : (s.config.continueOnDnsError && !m.responseCode.isFinal) = true)
    (server : SocketAddress) (key : CacheKey) (p : Progress σ) :
    (judge s server key (.ok m)).run p =
      (.nextServer m, (p.notingError m).noting (.retryNextServer server m.responseCode)) := by
  unfold judge
  simp only [herror, hgoesOn, if_true]
  rfl

theorem run_judge_of_ends (herror : m.responseCode.isError = true)
    (hends : (s.config.continueOnDnsError && !m.responseCode.isFinal) = false)
    (server : SocketAddress) (key : CacheKey) (p : Progress σ) :
    (judge s server key (.ok m)).run p =
      let ended := (endWithDnsError s m server).run (p.notingError m)
      (.finished ended.1, ended.2) := by
  unfold judge
  simp only [herror, hends, if_true, Bool.false_eq_true, if_false]
  rfl

def Progress.keeping (p : Progress σ) (s : Setting σ) (key : CacheKey) (m : Message) :
    Progress σ :=
  if s.config.useCache then ((store s key m).run p).2 else p

theorem keeping_eq (s : Setting σ) (key : CacheKey) (m : Message) (p : Progress σ) :
    ∃ cache, p.keeping s key m = { p with session := { p.session with cache := cache } } := by
  unfold Progress.keeping
  split
  · exact ⟨_, rfl⟩
  · exact ⟨p.session.cache, rfl⟩

theorem run_judge_of_noError (hclean : m.responseCode.isError = false) (server : SocketAddress)
    (key : CacheKey) (p : Progress σ) :
    (judge s server key (.ok m)).run p =
      let ended := (succeed m server false).run
        ((p.noting (.responseHeader m.header m.size)).keeping s key m)
      (.finished ended.1, ended.2) := by
  unfold judge Progress.keeping
  simp only [hclean, Bool.false_eq_true, if_false]
  cases s.config.useCache <;> rfl

/-! ## The attempts on a server -/

section

variable (server : NameServer) (key : CacheKey) (number : Nat) (tally : Tally) (left : Nat)

theorem run_attempts_of_canceled (hcanceled : p.isCanceled = true) :
    (attempts s server key number tally (left + 1)).run p =
      let ended := (fail s .canceled).run p
      (.finished ended.1, ended.2) := by
  unfold attempts
  rw [run_bind, run_isCanceled, hcanceled]
  rfl

theorem run_attempts_of_live (hlive : p.isCanceled = false) :
    (attempts s server key number tally (left + 1)).run p =
      let tried := (attempt s server number).run p
      match (judge s server.address key tried.1).run tried.2 with
      | (.finished result, q) => (.finished result, q)
      | (.nextServer m, q) => (.goOn { tally with lastError := some (server.address, m) }, q)
      | (.nextAttempt e, q) => (attempts s server key (number + 1) (tally.add e) left).run q := by
  rw [attempts, run_bind, run_isCanceled, hlive, if_neg Bool.false_ne_true, run_bind, run_bind]
  dsimp only
  rcases (judge s server.address key _).run _ with ⟨_ | _ | _, q⟩ <;> rfl

end

/-! ## The walk over the servers -/

section

variable (server : NameServer) (rest : List NameServer) (tally : Tally)

theorem run_walk_of_canceled (hcanceled : p.isCanceled = true) :
    (walk s tally (server :: rest)).run p = (fail s .canceled).run p := by
  unfold walk
  rw [run_bind, run_isCanceled, hcanceled]
  rfl

theorem run_walk_of_live (hlive : p.isCanceled = false) :
    (walk s tally (server :: rest)).run p =
      let key := CacheKey.of server.address s.question
      match (cached s key).run { p with server := some server.address } with
      | (some m, q) => (succeed m server.address true).run (q.noting (.cacheHit server.address))
      | (none, q) =>
        match (attempts s server key 0 tally (s.config.retries + 1)).run q with
        | (.finished result, r) => (result, r)
        | (.goOn next, r) => (walk s next rest).run r := by
  rw [walk, run_bind, run_isCanceled, hlive, if_neg Bool.false_ne_true, run_bind, run_modify,
    run_bind]
  dsimp only
  rcases (cached s (.of server.address s.question)).run { p with server := some server.address }
    with ⟨_ | m, q⟩
  · dsimp only
    rw [run_bind]
    rcases (attempts s server (.of server.address s.question) 0 tally
      (s.config.retries + 1)).run q with ⟨_ | _, r⟩ <;> rfl
  · rfl

end

/-! ## A whole lookup -/

def Setting.order (s : Setting σ) (servers : List NameServer) : List NameServer :=
  if s.config.randomOrder then s.surroundings.shuffle servers else servers

theorem order_eq_self (horder : s.config.randomOrder = false) (servers : List NameServer) :
    s.order servers = servers := by
  rw [Setting.order, horder, if_neg Bool.false_ne_true]

theorem order_perm {servers : List NameServer}
    (hshuffle : s.config.randomOrder = true → (s.surroundings.shuffle servers).Perm servers) :
    (s.order servers).Perm servers := by
  unfold Setting.order
  split
  · exact hshuffle ‹_›
  · exact .refl servers

theorem order_ne_nil {servers : List NameServer} (hservers : servers ≠ [])
    (hshuffle : s.config.randomOrder = true → (s.surroundings.shuffle servers).Perm servers) :
    s.order servers ≠ [] :=
  fun hnil => hservers (List.nil_perm.1 (hnil ▸ order_perm hshuffle))

theorem run_lookup_of_servers {servers : List NameServer} (hservers : servers ≠ [])
    (p : Progress σ) :
    (lookup s servers).run p = (walk s .empty (s.order servers)).run
      (p.noting (.resolvedServers ((s.order servers).map NameServer.address))) := by
  have hsome : servers.isEmpty = false := by simpa using hservers
  unfold lookup
  rw [hsome, if_neg Bool.false_ne_true]
  rfl

end StubResolver.Lookup
