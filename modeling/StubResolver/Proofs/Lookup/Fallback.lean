import StubResolver.Lookup.Client
import StubResolver.Proofs.Lookup.Transcript
import StubResolver.Proofs.Message.RoundTrip

/-!
# Calls, and responses that were cut short

An attempt makes one call, and a second one only to ask over TCP for what was cut
short over UDP. So the number of servers and retries limits the calls and the time of
a lookup, and no response that was cut short is passed on where it could have been
asked for again. Whether a response was cut short is only known of responses that can
be decoded.
-/

namespace StubResolver

def LookupResult.message? : LookupResult → Option Message
  | .ok r => some r.message
  | .error f => f.response

/-- None of the responses in the cache was cut short. -/
def Cache.Whole (c : Cache) : Prop := ∀ entry ∈ c.entries, entry.2.response.isTruncated = false

theorem isTruncated_of_validity {config : CacheConfig} {m : Message} {v : Duration}
    (h : validity? config m = some v) : m.isTruncated = false := by
  unfold validity? at h
  split at h
  · cases h
  · simp_all

namespace Lookup

open Name

variable {σ : Type} {s : Setting σ} {p q : Progress σ} {servers : List NameServer}
  {visits : List (Visit σ)} {log : List (Attempt σ)} {a : Attempt σ} {result : LookupResult}

/-! ## How many calls there are -/

theorem Attempt.Proper.length_calls_le (h : a.Proper s) : a.calls.length ≤ 2 := by
  cases h with
  | uncomposed _ calls => simp [calls]
  | asked _ _ _ calls => simp [calls]
  | followed _ _ _ _ calls => simp [calls]
  | interrupted _ _ _ _ calls => simp [calls]

theorem length_flatMap_le {α β : Type} {f : α → List β} {as : List α} {most : Nat}
    (h : ∀ a ∈ as, (f a).length ≤ most) : (as.flatMap f).length ≤ as.length * most := by
  induction as with
  | nil => exact Nat.zero_le _
  | cons a as ih =>
      obtain ⟨ha, has⟩ := List.forall_mem_cons.1 h
      have hrest := ih has
      rw [List.flatMap_cons, List.length_append, List.length_cons, Nat.succ_mul]
      omega

theorem Transcript.proper_of_mem (h : Transcript s servers p visits result q)
    (ha : a ∈ attemptsOf visits) : a.Proper s := by
  obtain ⟨v, hv, ha⟩ := List.mem_flatMap.1 ha
  exact ((h.proper v hv).proper a ha).2

theorem Transcript.length_calls_le (h : Transcript s servers p visits result q) :
    ((attemptsOf visits).flatMap Attempt.calls).length ≤
      2 * (s.order servers).length * (1 + s.config.retries) := by
  have hvisits : visits.length ≤ (s.order servers).length := by
    simpa using h.visited.length_le
  calc
    ((attemptsOf visits).flatMap Attempt.calls).length ≤ (attemptsOf visits).length * 2 :=
      length_flatMap_le fun _ ha => (h.proper_of_mem ha).length_calls_le
    _ ≤ visits.length * (s.config.retries + 1) * 2 :=
      Nat.mul_le_mul_right 2 (length_flatMap_le fun v hv => (h.proper v hv).few)
    _ ≤ (s.order servers).length * (s.config.retries + 1) * 2 :=
      Nat.mul_le_mul_right 2 (Nat.mul_le_mul_right _ hvisits)
    _ = 2 * (s.order servers).length * (1 + s.config.retries) := by
      rw [Nat.mul_comm _ 2, Nat.mul_assoc, Nat.add_comm]

/-! ## What becomes of responses that were cut short -/

theorem Attempt.Proper.source (h : a.Proper s) {m : Message} (houtcome : a.outcome = .ok m) :
    ∃ c, a.calls.getLast? = some c ∧ reading s (c.answer s) = .ok m ∧
      (c.query.protocol = .tcp ∨ ¬ CutShort s c) := by
  cases h with
  | uncomposed _ _ outcome => cases houtcome.symm.trans outcome
  | @asked _ c _ _ whole calls outcome =>
      exact ⟨c, by simp [calls], outcome.symm.trans houtcome, .inr whole⟩
  | @followed _ c d _ _ _ query' calls outcome =>
      exact ⟨d, by simp [calls], outcome.symm.trans houtcome, .inl (by rw [query'])⟩
  | interrupted _ _ _ _ _ outcome => cases houtcome.symm.trans outcome

theorem Attempt.Proper.of_truncated (h : a.Proper s) {m : Message} (houtcome : a.outcome = .ok m)
    (htruncated : m.isTruncated = true) :
    s.config.tcpFallback = false ∨ ∃ c ∈ a.calls, c.query.protocol = .tcp ∧
      reading s (c.answer s) = .ok m := by
  obtain ⟨c, hlast, hreading, htcp | hwhole⟩ := h.source houtcome
  · exact .inr ⟨c, List.mem_of_getLast? hlast, htcp, hreading⟩
  · cases hprotocol : c.query.protocol with
    | tcp => exact .inr ⟨c, List.mem_of_getLast? hlast, hprotocol, hreading⟩
    | udp =>
        refine .inl (Bool.eq_false_iff.2 fun hfallback => ?_)
        exact hwhole ⟨hprotocol, hfallback, m, hreading, htruncated⟩

theorem Attempt.Proper.query_of_mem (h : a.Proper s) {c : MadeCall σ} (hc : c ∈ a.calls) :
    c.query.server = a.server.address ∧ requestOctets s a.id = .ok c.query.request := by
  cases h with
  | uncomposed _ calls => simp [calls] at hc
  | asked request query _ calls | interrupted request query _ _ calls =>
      obtain rfl : c = _ := by simpa [calls] using hc
      rw [query]
      exact ⟨rfl, request⟩
  | followed request query _ query' calls =>
      rcases (by simpa [calls] using hc : c = _ ∨ c = _) with rfl | rfl
      · rw [query]
        exact ⟨rfl, request⟩
      · rw [query']
        exact ⟨rfl, request⟩

theorem Course.whole (h : Course s p log q) (hwhole : p.session.cache.Whole) :
    q.session.cache.Whole := by
  intro entry hentry
  rcases h.entries entry hentry with hold | ⟨a, -, -, -, hvalidity⟩
  · exact hwhole entry hold
  · exact isTruncated_of_validity hvalidity

theorem Transcript.of_truncated (h : Transcript s servers p visits result q)
    (hwhole : p.session.cache.Whole) {m : Message} (hmessage : result.message? = some m)
    (htruncated : m.isTruncated = true) :
    s.config.tcpFallback = false ∨ ∃ a ∈ attemptsOf visits, ∃ c ∈ a.calls,
      c.query.protocol = .tcp ∧ reading s (c.answer s) = .ok m := by
  have hheard : ∀ a ∈ attemptsOf visits, a.outcome = .ok m → s.config.tcpFallback = false ∨
      ∃ a ∈ attemptsOf visits, ∃ c ∈ a.calls, c.query.protocol = .tcp ∧
        reading s (c.answer s) = .ok m := fun a ha houtcome =>
    ((h.proper_of_mem ha).of_truncated houtcome htruncated).imp_right fun hc => ⟨a, ha, hc⟩
  cases h.ended.sourced with
  | @cached server e now held =>
      obtain rfl := Option.some.inj hmessage
      exact absurd (htruncated.symm.trans (h.course.whole hwhole _ held)) (by decide)
  | @heard a m' attempt outcome =>
      obtain rfl := Option.some.inj hmessage
      exact hheard a attempt outcome
  | @dnsError a m' attempt outcome =>
      obtain rfl := Option.some.inj hmessage
      exact hheard a attempt outcome
  | failed => cases hmessage

/-! ## Responses that say they were cut short -/

theorem isTruncated_of_standsAt {octets : Octets} {header : Header} {m : Message}
    (hdecoded : Message.ofOctets s.registry octets = .ok m)
    (hheader : StandsAt octets 0 header.octets) : m.isTruncated = header.flag .truncated := by
  have hoctets := hheader.eq_of_length_eq (Message.standsAt_header hdecoded) rfl
  rw [Header.octets_injective hoctets]
  rfl

theorem reading_of_answer {c : MadeCall σ} {octets : Octets} (hanswer : c.answer s = .ok octets) :
    reading s (c.answer s) = (Message.ofOctets s.registry octets).mapError .parse := by
  rw [hanswer]
  rfl

theorem Attempt.Proper.of_cut (h : a.Proper s) {c : MadeCall σ} (hc : c ∈ a.calls)
    (hprotocol : c.query.protocol = .udp) (hfallback : s.config.tcpFallback = true)
    {octets : Octets} {header : Header} (hanswer : c.answer s = .ok octets)
    (hheader : StandsAt octets 0 header.octets) (hflag : header.flag .truncated = true)
    (hlive : (c.after s).isCanceled = false) :
    match Message.ofOctets s.registry octets with
    | .ok _ => ∃ d, a.calls = [c, d] ∧ d.query = { c.query with protocol := .tcp }
    | .error e => a.calls = [c] ∧ a.Breaks (.parse e) := by
  cases hdecoded : Message.ofOctets s.registry octets with
  | error e =>
      have hreading : reading s (c.answer s) = .error (.parse e) := by
        rw [reading_of_answer hanswer, hdecoded]
        rfl
      -- It is only the decoded message that could say so.
      have hwhole : ¬ CutShort s c := by
        rintro ⟨-, -, m, hreading', -⟩
        cases hreading.symm.trans hreading'
      cases h with
      | uncomposed _ calls => simp [calls] at hc
      | asked _ _ _ calls outcome =>
          obtain rfl : c = _ := by simpa [calls] using hc
          exact ⟨calls, outcome.trans hreading, rfl⟩
      | followed _ _ cut query' calls =>
          rcases (by simpa [calls] using hc : c = _ ∨ c = _) with rfl | rfl
          · exact absurd cut hwhole
          · simp [query'] at hprotocol
      | interrupted _ _ cut _ calls =>
          obtain rfl : c = _ := by simpa [calls] using hc
          exact absurd cut hwhole
  | ok m =>
      have hreading : reading s (c.answer s) = .ok m := by
        rw [reading_of_answer hanswer, hdecoded]
        rfl
      have hcut : CutShort s c := ⟨hprotocol, hfallback, m, hreading,
        (isTruncated_of_standsAt hdecoded hheader).trans hflag⟩
      cases h with
      | uncomposed _ calls => simp [calls] at hc
      | asked _ _ whole calls =>
          obtain rfl : c = _ := by simpa [calls] using hc
          exact absurd hcut whole
      | @followed _ _ d _ query _ query' calls =>
          rcases (by simpa [calls] using hc : c = _ ∨ c = _) with rfl | rfl
          · exact ⟨d, calls, by rw [query', query]⟩
          · simp [query'] at hprotocol
      | interrupted _ _ _ canceled calls =>
          obtain rfl : c = _ := by simpa [calls] using hc
          cases canceled.symm.trans hlive

/-! ## A first response that cannot be decoded -/

theorem run_attempts_of_breaking {server : NameServer} {number : Nat} {e : ClientError}
    (hlive : p.isCanceled = false) (hrun : (attempt s server number).run p = (.error e, q))
    (hfirm : e.isTransient = false) (key : CacheKey) (tally : Tally) (left : Nat) :
    (attempts s server key number tally (left + 1)).run p =
      (.finished (.error ⟨e, s.question, q.server, (q.noting (.ended none)).trail, none⟩),
        q.noting (.ended none)) := by
  rw [run_attempts_of_live _ _ _ _ _ hlive, hrun]
  dsimp only
  rw [run_judge_of_firm hfirm, run_fail]

theorem run_walk_of_breaking {server : NameServer} {e : ClientError} (hlive : p.isCanceled = false)
    (hcache : s.config.useCache = false)
    (hrun : (attempt s server 0).run { p with server := some server.address } = (.error e, q))
    (hfirm : e.isTransient = false) (tally : Tally) (rest : List NameServer) :
    (walk s tally (server :: rest)).run p =
      (.error ⟨e, s.question, q.server, (q.noting (.ended none)).trail, none⟩,
        q.noting (.ended none)) := by
  have hattempts := run_attempts_of_breaking
    (p := { p with server := some server.address }) hlive hrun hfirm
    (.of server.address s.question) tally s.config.retries
  have hcached : (cached s (.of server.address s.question)).run
      { p with server := some server.address } =
        (none, { p with server := some server.address }) := by
    unfold cached
    rw [hcache]
    rfl
  rw [run_walk_of_live _ _ _ hlive]
  dsimp only
  rw [hcached]
  dsimp only
  rw [hattempts]

theorem run_attempt_of_undecodable {server : NameServer} {number : Nat} {octets response : Octets}
    {e : ParseError}
    (hrequest : requestOctets s (s.surroundings.requestId p.session.idsUsed) = .ok octets)
    (hanswer : (firstCall s server number octets p).answer s = .ok response)
    (hdecoded : Message.ofOctets s.registry response = .error e) :
    (attempt s server number).run p =
      (.error (.parse e), (firstCall s server number octets p).after s) := by
  have hreading :
      reading s ((firstCall s server number octets p).answer s) = .error (.parse e) := by
    rw [reading_of_answer hanswer, hdecoded]
    rfl
  obtain ⟨hwhole, -⟩ := run_attempt_of_ok server number hrequest
  rw [hwhole, hreading]
  rintro ⟨-, -, m, hreading', -⟩
  cases hreading.symm.trans hreading'

theorem run_lookup_of_undecodable {server : NameServer} {rest : List NameServer}
    {octets response : Octets} {e : ParseError} (horder : s.config.randomOrder = false)
    (hcache : s.config.useCache = false) (hlive : p.isCanceled = false)
    (hrequest : requestOctets s (s.surroundings.requestId p.session.idsUsed) = .ok octets)
    (hdecoded : Message.ofOctets s.registry response = .error e) :
    let started := p.noting (.resolvedServers ((server :: rest).map NameServer.address))
    let call := firstCall s server 0 octets { started with server := some server.address }
    call.answer s = .ok response →
      (lookup s (server :: rest)).run p =
        (.error ⟨.parse e, s.question, (call.after s).server,
          ((call.after s).noting (.ended none)).trail, none⟩,
          (call.after s).noting (.ended none)) := by
  intro started call hanswer
  have hattempt : (attempt s server 0).run { started with server := some server.address } =
      (.error (.parse e), call.after s) := run_attempt_of_undecodable hrequest hanswer hdecoded
  have hstarted : started.isCanceled = false := hlive
  have horder : s.order (server :: rest) = server :: rest := order_eq_self horder _
  rw [run_lookup_of_servers (List.cons_ne_nil _ _), horder]
  exact run_walk_of_breaking hstarted hcache hattempt rfl .empty rest

end Lookup

open Lookup

def Client.initial {σ : Type} (c : Client) (token : Token) (session : Session σ) : Progress σ :=
  ⟨session, token, if c.config.auditTrail then some [] else none, none⟩

/-- What a lookup does is told by a transcript: the attempts on a server are numbered
one after the other, and each makes its call, and one more over TCP if what came back
over UDP was cut short and is to be asked for again. What is returned or stored has
come of an attempt, and so of its last call. The servers and retries therefore limit
the calls and the time that a lookup takes. As long as the cache holds no responses
that were cut short it never will, and one that is returned came over TCP or was not
to be asked for again. -/
theorem Client.queryServers_calls {σ : Type} (c : Client) (surroundings : Surroundings σ)
    (servers : List NameServer) (question : Question) (token : Token) (session : Session σ)
    (hshuffle : c.config.randomOrder = true → (surroundings.shuffle servers).Perm servers) :
    let s : Setting σ := ⟨surroundings, c.config, c.registry, question⟩
    let outcome := c.queryServers surroundings servers question token session
    let most := 2 * servers.length * (1 + c.config.retries)
    ∃ visits finish, finish.session = outcome.2 ∧
      Transcript s servers (c.initial token session) visits outcome.1 finish ∧
      outcome.2.queries = session.queries ++
        ((attemptsOf visits).flatMap Attempt.calls).map MadeCall.query ∧
      outcome.2.queries.length ≤ session.queries.length + most ∧
      outcome.2.time ≤ session.time + most * c.config.timeout ∧
      (session.cache.Whole → outcome.2.cache.Whole ∧
        ∀ m, outcome.1.message? = some m → m.isTruncated = true → c.config.tcpFallback = false ∨
          ∃ a ∈ attemptsOf visits, ∃ call ∈ a.calls, call.query.protocol = .tcp ∧
            reading s (call.answer s) = .ok m) := by
  intro s outcome most
  obtain ⟨visits, htranscript⟩ := lookup_transcript s servers (c.initial token session)
  have hlength : (s.order servers).length = servers.length := by
    unfold Setting.order
    split
    · rename_i hrandom
      exact (hshuffle hrandom).length_eq
    · rfl
  have hcalls := htranscript.length_calls_le
  rw [hlength] at hcalls
  have hmakes := htranscript.course.calls
  refine ⟨visits, _, rfl, htranscript, hmakes.queries_eq, ?_, ?_, fun hwhole =>
    ⟨htranscript.course.whole hwhole, fun m => htranscript.of_truncated hwhole⟩⟩
  · have hqueries := congrArg List.length hmakes.queries_eq
    rw [List.length_append, List.length_map] at hqueries
    exact Nat.le_trans (Nat.le_of_eq hqueries) (Nat.add_le_add_left hcalls _)
  · exact Nat.le_trans hmakes.time_le (Nat.add_le_add_left (Nat.mul_le_mul_right _ hcalls) _)

/-- Two servers in reverse order: what the second one sends over UDP was cut short,
and so is what it sends over TCP, which is the result. -/
theorem Client.queryServers_cut_short_twice :
    let config : LookupConfig := { LookupConfig.default with retries := 1, useCache := false }
    let client : Client := ⟨[], config, .empty⟩
    let server : UInt8 → NameServer := fun n => .ofAddress (.v4 ⟨#v[192, 0, 2, n]⟩ 53)
    let surroundings : Surroundings Unit :=
      { query := fun _ _ _ _ world =>
          (⟨false, .now (.ok #[0, 0, 0x82, 0, 0, 0, 0, 0, 0, 0, 0, 0])⟩, world)
        clock := fun _ => 0
        requestId := fun _ => 0
        shuffle := List.reverse }
    let question : Question := ⟨.root, .a, .internet⟩
    let session : Session Unit := .start () (.empty .default false 0)
    let s : Setting Unit := ⟨surroundings, config, .empty, question⟩
    let outcome := client.queryServers surroundings [server 1, server 2] question .unheld session
    outcome.2.queries.map (fun q => (q.server, q.protocol)) =
        [((server 2).address, .udp), ((server 2).address, .tcp)] ∧
      outcome.1.message?.map Message.isTruncated = some true ∧
      ∃ visits finish, finish.session = outcome.2 ∧
        Transcript s [server 1, server 2] (client.initial .unheld session) visits outcome.1 finish ∧
        ∀ m, outcome.1.message? = some m → m.isTruncated = true → config.tcpFallback = false ∨
          ∃ a ∈ attemptsOf visits, ∃ call ∈ a.calls, call.query.protocol = .tcp ∧
            reading s (call.answer s) = .ok m := by
  intro config client server surroundings question session s outcome
  obtain ⟨visits, finish, hfinish, htranscript, -, -, -, hwhole⟩ :=
    Client.queryServers_calls client surroundings [server 1, server 2] question .unheld session
      fun _ => List.reverse_perm _
  have hcache : session.cache.Whole := by
    simp [session, Session.start, Cache.empty, Cache.Whole]
  exact ⟨by decide +kernel, by decide +kernel, visits, finish, hfinish, htranscript,
    (hwhole hcache).2⟩

/-- A response over UDP that says it was cut short is followed by the same request
over TCP, unless the token is triggered by then, or the response cannot be decoded:
that is the end of the lookup. -/
theorem Client.queryServers_cut_short {σ : Type} (c : Client) (surroundings : Surroundings σ)
    (servers : List NameServer) (question : Question) (token : Token) (session : Session σ) :
    let s : Setting σ := ⟨surroundings, c.config, c.registry, question⟩
    let outcome := c.queryServers surroundings servers question token session
    ∃ visits finish, finish.session = outcome.2 ∧
      Transcript s servers (c.initial token session) visits outcome.1 finish ∧
      ∀ a ∈ attemptsOf visits, ∀ call ∈ a.calls, ∀ (octets : Octets) (header : Header),
        call.query.protocol = .udp → c.config.tcpFallback = true → call.answer s = .ok octets →
        Name.StandsAt octets 0 header.octets → header.flag .truncated = true →
        (call.after s).isCanceled = false →
        match Message.ofOctets c.registry octets with
        | .ok _ => ∃ next, a.calls = [call, next] ∧
            next.query = { call.query with protocol := .tcp }
        | .error e => a.calls = [call] ∧ (attemptsOf visits).getLast? = some a ∧
            outcome.1 = .error
              ⟨.parse e, question, some call.query.server, finish.trail, none⟩ := by
  intro s outcome
  obtain ⟨visits, htranscript⟩ := lookup_transcript s servers (c.initial token session)
  refine ⟨visits, _, rfl, htranscript, fun a ha call hcall octets header hprotocol hfallback hanswer
    hheader hflag hlive => ?_⟩
  have hproper := htranscript.proper_of_mem ha
  have hcut := hproper.of_cut hcall hprotocol hfallback hanswer hheader hflag hlive
  change match Message.ofOctets s.registry octets with | .ok _ => _ | .error e => _
  cases hdecoded : Message.ofOctets s.registry octets with
  | ok m =>
      rw [hdecoded] at hcut
      exact hcut
  | error e =>
      rw [hdecoded] at hcut
      obtain ⟨hcalls, hbreaks⟩ := hcut
      obtain ⟨before, after, hsplit⟩ := List.append_of_mem ha
      obtain ⟨rfl, hresult⟩ := htranscript.ended.broken before a after _ hsplit hbreaks
      refine ⟨hcalls, by simp [hsplit], ?_⟩
      rw [(hproper.query_of_mem hcall).1]
      exact hresult

theorem Client.queryServers_of_undecodable {σ : Type} {c : Client} {surroundings : Surroundings σ}
    {server : NameServer} {rest : List NameServer} {question : Question} {token : Token}
    {session : Session σ} {octets response : Octets} {e : ParseError}
    (horder : c.config.randomOrder = false) (hcache : c.config.useCache = false)
    (hlive : token.isTriggered session.time = false) :
    let s : Setting σ := ⟨surroundings, c.config, c.registry, question⟩
    let started := (c.initial token session).noting
      (.resolvedServers ((server :: rest).map NameServer.address))
    let call := firstCall s server 0 octets { started with server := some server.address }
    requestOctets s (surroundings.requestId session.idsUsed) = .ok octets →
      call.answer s = .ok response → Message.ofOctets c.registry response = .error e →
      c.queryServers surroundings (server :: rest) question token session =
        (.error ⟨.parse e, question, (call.after s).server,
          ((call.after s).noting (.ended none)).trail, none⟩, (call.after s).session) := by
  intro s started call hrequest hanswer hdecoded
  have hlookup := run_lookup_of_undecodable (s := s) (p := c.initial token session) horder hcache
    hlive hrequest hdecoded hanswer
  have hrun : c.queryServers surroundings (server :: rest) question token session =
      (((lookup s (server :: rest)).run (c.initial token session)).1,
        ((lookup s (server :: rest)).run (c.initial token session)).2.session) := rfl
  rw [hrun, hlookup]
  rfl

theorem Message.ofOctets_of_question_error {r : Registry} {m : Octets} {header : Header}
    {counts : SectionCounts} {e : ParseError} {stop : Nat}
    (hstart : Name.StandsAt m 0 (header.octets ++ counts.octets)) (hsome : counts.question ≠ 0)
    (hquestion : Question.read m 12 = .error e stop) : ofOctets r m = .error e := by
  obtain ⟨hheader, hcounts⟩ := Name.standsAt_append_iff.1 hstart
  have hquestions : Reader.repeated counts.question.toNat Question.read m 12 = .error e stop := by
    have hcount : counts.question.toNat ≠ 0 := fun h => hsome (UInt16.toNat_inj.1 h)
    obtain ⟨count, hcount⟩ := Nat.exists_eq_succ_of_ne_zero hcount
    rw [hcount]
    exact Reader.bind_eq_error_iff.2 (.inl hquestion)
  have hread : read r m.size m 0 = .error e stop :=
    Reader.bind_eq_error_iff.2 <| .inr ⟨header, 4, Header.read_eq_ok_iff.2 ⟨hheader, rfl⟩,
      Reader.bind_eq_error_iff.2 <| .inr ⟨counts, 12, SectionCounts.read_eq_ok_iff.2 ⟨hcounts, rfl⟩,
        Reader.bind_eq_error_iff.2 <| .inl hquestions⟩⟩
  exact congrArg Prod.fst (Reader.runAt_eq_error_iff.2 hread)

/-- What is left of a response over UDP is a header that says so and announces a
question: the lookup ends with it, and the server is not asked over TCP. -/
theorem Client.queryServers_cut_off_question :
    let config : LookupConfig :=
      { LookupConfig.default with randomOrder := false, useCache := false }
    let client : Client := ⟨[], config, .empty⟩
    let server : NameServer := .ofAddress (.v4 ⟨#v[192, 0, 2, 1]⟩ 53)
    let header : Header := ⟨0, 0x8200⟩
    let octets : Octets := #[0, 0, 0x82, 0, 0, 1, 0, 0, 0, 0, 0, 0]
    let surroundings : Surroundings Unit :=
      { query := fun protocol _ _ _ world =>
          (⟨false, .now (.ok (if protocol = .udp then octets
            else #[0, 0, 0x80, 0, 0, 0, 0, 0, 0, 0, 0, 0]))⟩, world)
        clock := fun _ => 0
        requestId := fun _ => 0
        shuffle := id }
    let session : Session Unit := .start () (.empty .default false 0)
    let outcome := client.queryServers surroundings [server] ⟨.root, .a, .internet⟩ .unheld session
    config.tcpFallback = true ∧ Name.StandsAt octets 0 header.octets ∧
      header.flag .truncated = true ∧
      outcome.2.queries.map (fun q => (q.protocol, (checkResponse q.request octets).toOption)) =
        [(.udp, some octets)] ∧
      outcome.1.toOption.isNone = true := by
  intro config client server header octets surroundings session outcome
  let s : Setting Unit := ⟨surroundings, config, .empty, ⟨.root, .a, .internet⟩⟩
  let request : Request := ⟨⟨0, 0x100⟩, ⟨.root, .a, .internet⟩, .ofRequest 4096 false⟩
  have hrequest : requestOctets s 0 = .ok request.octets.toArray :=
    Request.toOctets_of_valid rfl (by decide)
  have hname : Name.read octets 12 = .error .shortInput 12 := by
    rw [Name.read, Name.walk]
    rfl
  have hstart : Name.StandsAt octets 0 (header.octets ++ SectionCounts.octets ⟨1, 0, 0, 0⟩) := by
    decide
  have hdecoded : Message.ofOctets s.registry octets = .error .shortInput :=
    Message.ofOctets_of_question_error hstart (by decide)
      (Reader.bind_eq_error_iff.2 (.inl hname))
  have houtcome : outcome = _ :=
    Client.queryServers_of_undecodable rfl rfl rfl hrequest rfl hdecoded
  rw [houtcome]
  exact ⟨rfl, ⟨[0, 1, 0, 0, 0, 0, 0, 0], by decide⟩, by decide, by decide +kernel, rfl⟩

end StubResolver
