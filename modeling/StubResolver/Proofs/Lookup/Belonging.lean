import StubResolver.Proofs.Cache.Key
import StubResolver.Proofs.Lookup.Sharing
import StubResolver.Proofs.Lookup.Timeline

/-!
# What cached responses belong to

A response is known for that to a request by its ID. What the cache holds for a
question has the ID of a request for it, and was received from the server that had
been asked. So if the servers answer nothing but what they are asked, then so does
the cache. That they do is not checked, though: a request that is sent back and asks
for something else is kept as the answer.
-/

namespace StubResolver

open Lookup Name

variable {σ : Type}

def Message.Answers (m : Message) (question : Question) : Prop :=
  m.header.flag .response = true ∧
    ∃ asked, m.firstQuestion? = some asked ∧ asked.same question = true

/-- The transports give back no more than what has passed their check. -/
def Surroundings.KeepsContract (surroundings : Surroundings σ) : Prop :=
  ∀ protocol server request time world octets,
    (surroundings.query protocol server request time world).1.outcome.result = .ok octets →
      checkResponse request octets = .ok octets

/-- The servers answer what they are asked, if anything. -/
def Lookup.Setting.Truthful (s : Setting σ) : Prop :=
  ∀ protocol server id request time world octets m, requestOctets s id = .ok request →
    (s.surroundings.query protocol server request time world).1.outcome.result = .ok octets →
      Message.ofOctets s.registry octets = .ok m → m.Answers s.question

/-- A name that its text can be told from others by. -/
structure Name.Plain (n : Name) : Prop where
  constructed : Constructed n
  undotted : ∀ l ∈ n.labels, dot ∉ l

theorem CacheKey.same_of_of_eq_of {server server' : SocketAddress} {q q' : Question}
    (hq : q.name.Plain) (hq' : q'.name.Plain) (h : CacheKey.of server q = .of server' q') :
    q.same q' = true := by
  obtain ⟨-, hname, htype, hclass⟩ := (of_eq_of_iff _ _ _ _).1 h
  have hsame := same_of_lowerOctets_dotted hq.constructed hq'.constructed hq.undotted hq'.undotted
    hname
  exact (Question.same_iff q q').2 ⟨hsame, htype, hclass⟩

namespace Message.Answers

variable {m : Message} {q q' : Question}

theorem of_same (h : m.Answers q) (hsame : q.same q' = true) : m.Answers q' := by
  obtain ⟨hresponse, asked, hasked, hq⟩ := h
  refine ⟨hresponse, asked, hasked, ?_⟩
  unfold Question.same at *
  exact decide_eq_true ((of_decide_eq_true hq).trans (of_decide_eq_true hsame))

theorem responseAt {e : CacheEntry} (h : e.response.Answers q) (now : Instant) :
    (e.responseAt now).Answers q := h

end Message.Answers

/-! ## What is checked -/

theorem messageId?_requestOctets {s : Setting σ} {id : UInt16} {octets : Octets}
    (h : requestOctets s id = .ok octets) : messageId? octets = some id := by
  let request := (Request.ofQuestion s.question s.config.recursion s.config.udpPayloadSize).setId id
  obtain rfl : octets = request.octets.toArray := Request.eq_octets_of_toOctets rfl h
  exact request.messageId?_octets

/-! ## What is received -/

theorem Lookup.MadeCall.result_of_answer {s : Setting σ} {c : MadeCall σ} {octets : Octets}
    (h : c.answer s = .ok octets) : (c.transportCall s).outcome.result = .ok octets := by
  unfold answer run at h
  cases hcanceled : c.before.isCanceled with
  | true =>
      rw [run_send_of_canceled hcanceled] at h
      cases h
  | false =>
      rw [run_send_of_live hcanceled] at h
      exact settle_result_of_ok h

theorem Lookup.reading_eq_ok_iff {s : Setting σ} {answer : Except ClientError Octets}
    {m : Message} : reading s answer = .ok m ↔
      ∃ octets, answer = .ok octets ∧ Message.ofOctets s.registry octets = .ok m := by
  cases answer with
  | error e => simp [reading, Except.bind]
  | ok octets =>
      cases hdecoded : Message.ofOctets s.registry octets <;>
        simp [reading, Except.bind, decode, hdecoded, Except.mapError]

namespace Sharing

/-- The lookup that the run has come to after `before` has received the message from
the server, as the response to its request with that ID, and the cache may keep it
for the question. -/
structure Received (h : Sharing σ) (ops : List (SharedOp σ)) (server : SocketAddress)
    (question : Question) (m : Message) (before : List (SharedOp σ)) (l : SharedLookup σ)
    (id : UInt16) : Prop where
  past : ∃ after, ops = before ++ .lookup l :: after
  used : l.client.config.useCache = true
  key : CacheKey.of server l.question = .of server question
  id_eq : m.id = id
  reply : ∃ finish calls call octets,
    finish.session = (l.run h.clock (h.run before)).2 ∧
      Makes (l.setting h.clock) (l.client.initial l.token (h.run before)) calls finish ∧
      call ∈ calls ∧ call.query.server = server ∧
      requestOctets (l.setting h.clock) id = .ok call.query.request ∧
      (call.transportCall (l.setting h.clock)).outcome.result = .ok octets ∧
      Message.ofOctets l.client.registry octets = .ok m

section

variable {h : Sharing σ} {ops before : List (SharedOp σ)} {server : SocketAddress}
  {question : Question} {m : Message} {l : SharedLookup σ} {id : UInt16}

theorem received (hcontract : ∀ l, .lookup l ∈ ops → l.surroundings.KeepsContract) {e : CacheEntry}
    (hentry : (CacheKey.of server question, e) ∈ (h.run ops).cache.entries) :
    ∃ before l id, h.Received ops server question e.response before l id := by
  obtain ⟨before, l, after, rfl, hstored⟩ := (h.accounted ops).entries _ hentry
  obtain ⟨hused, ⟨m, server', _, trail⟩, v, hresult, rfl, -, hentry⟩ := hstored
  obtain ⟨hkey, rfl⟩ := Prod.mk.inj hentry
  obtain rfl : server = server' := congrArg CacheKey.server hkey
  obtain ⟨calls, hmakes, call, hcall, hserver, ⟨id, hrequest⟩, hreading⟩ :=
    lookup_hears (s := l.setting h.clock) (p := l.client.initial l.token (h.run before)) hresult rfl
  obtain ⟨octets, hanswer, hdecoded⟩ := reading_eq_ok_iff.1 hreading
  have hgiven := MadeCall.result_of_answer hanswer
  have hchecked := hcontract l (by simp) _ _ _ _ _ _ hgiven
  have hid : some m.id = some id := calc
    some m.id = messageId? octets :=
      (messageId?_of_standsAt (Message.standsAt_header hdecoded)).symm
    _ = messageId? call.query.request := messageId?_of_checked hchecked
    _ = some id := messageId?_requestOctets hrequest
  exact ⟨before, l, id, {
    past := ⟨after, rfl⟩
    used := hused
    key := hkey.symm
    id_eq := Option.some.inj hid
    reply := ⟨_, calls, call, octets, rfl, hmakes, hcall, hserver, hrequest, hgiven, hdecoded⟩ }⟩

theorem Received.answers (hreceived : h.Received ops server question m before l id)
    (htruthful : (l.setting h.clock).Truthful) (hname : l.question.name.Plain)
    (hname' : question.name.Plain) : m.Answers question := by
  obtain ⟨_, _, call, octets, -, -, -, -, hrequest, hgiven, hdecoded⟩ := hreceived.reply
  have hanswers : m.Answers l.question := htruthful _ _ _ _ _ _ _ _ hrequest hgiven hdecoded
  exact hanswers.of_same (CacheKey.same_of_of_eq_of hname hname' hreceived.key)

end

theorem steady_keepsContract (response : Octets) :
    (Surroundings.steady response).KeepsContract := by
  intro protocol server request time world octets h
  obtain rfl := eq_of_checkResponse h
  exact h

theorem steady_truthful {s : Setting Instant} {response : Octets} {m : Message}
    (hsteady : s.surroundings.query = (Surroundings.steady response).query)
    (hdecoded : Message.ofOctets s.registry response = .ok m) (hanswers : m.Answers s.question) :
    s.Truthful := by
  intro protocol server id request time world octets m' _ hgiven hdecoded'
  rw [hsteady] at hgiven
  obtain rfl := eq_of_checkResponse hgiven
  obtain rfl := Except.ok.inj (hdecoded.symm.trans hdecoded')
  exact hanswers

/-- Each response that the cache holds for a question was received from its server,
by a lookup with the same key and with the ID of one of its requests. With servers
that answer what they are asked, what is held and what is served for a question
answers it. -/
theorem cached_as_received (h : Sharing σ) (ops : List (SharedOp σ))
    (hcontract : ∀ l, .lookup l ∈ ops → l.surroundings.KeepsContract) :
    (∀ server question e, (CacheKey.of server question, e) ∈ (h.run ops).cache.entries →
      ∃ before l id, h.Received ops server question e.response before l id) ∧
    ((∀ l, .lookup l ∈ ops → (l.setting h.clock).Truthful ∧ l.question.name.Plain) →
      (∀ server question e, question.name.Plain →
        (CacheKey.of server question, e) ∈ (h.run ops).cache.entries →
          e.response.Answers question) ∧
      ∀ (l : SharedLookup σ) r, l.question.name.Plain →
        (l.run h.clock (h.run ops)).1 = .ok r → r.fromCache = true →
          r.message.Answers l.question) := by
  refine ⟨fun server question e => received hcontract, fun htruthful => ?_⟩
  have hholds : ∀ server question e, question.name.Plain →
      (CacheKey.of server question, e) ∈ (h.run ops).cache.entries →
        e.response.Answers question := by
    intro server question e hname hentry
    obtain ⟨before, l, id, hreceived⟩ := received hcontract hentry
    obtain ⟨after, rfl⟩ := hreceived.past
    obtain ⟨htruthful, hname'⟩ := htruthful l (by simp)
    exact hreceived.answers htruthful hname' hname
  refine ⟨hholds, fun l r hname hr hcached => ?_⟩
  have huse := lookup_cacheUse (s := l.setting h.clock) l.servers
    (l.client.initial l.token (h.run ops))
  obtain ⟨-, e, _, hheld, -, -, hmessage, -⟩ := huse.served r hr hcached
  rw [hmessage]
  exact (hholds r.server l.question e hname hheld).responseAt _

/-- The response to a question is kept, and answers it. -/
theorem cached_answer_of_root :
    let response : Octets := #[0, 0, 0x80, 0, 0, 1, 0, 1, 0, 0, 0, 0,
      0, 0, 1, 0, 1, 0, 0, 1, 0, 1, 0, 0, 0, 30, 0, 4, 192, 0, 2, 7]
    let ops := [.lookup (rootLookup response)]
    (∀ l, .lookup l ∈ ops → l.surroundings.KeepsContract) ∧
      (∀ l, .lookup l ∈ ops → (l.setting atFirst.clock).Truthful ∧ l.question.name.Plain) ∧
      ∃ e, (rootKey, e) ∈ (atFirst.run ops).cache.entries ∧
        (∃ before l id, atFirst.Received ops rootKey.server ⟨.root, .a, .internet⟩ e.response
          before l id) ∧
        e.response.Answers ⟨.root, .a, .internet⟩ := by
  intro response ops
  let m : Message := rootAnswer 0x8000 .a
  have hdecoded : Message.ofOctets .empty response = .ok m :=
    ofOctets_rootAnswer _ _ rfl (by decide) (by decide) (by decide)
  have hvalid : Validity .default m (.ofSeconds 30) := (validity?_eq_some_iff _ _ _).1 (by decide)
  have hcontract : ∀ l, .lookup l ∈ ops → l.surroundings.KeepsContract := by
    intro l hl
    obtain rfl := SharedOp.lookup.inj (List.mem_singleton.1 hl)
    exact steady_keepsContract response
  have hroot : Name.root.Plain := ⟨.ofLabels (show ofLabels [] = .ok root from rfl), by decide⟩
  have htruthful : ∀ l, .lookup l ∈ ops →
      (l.setting atFirst.clock).Truthful ∧ l.question.name.Plain := by
    intro l hl
    obtain rfl := SharedOp.lookup.inj (List.mem_singleton.1 hl)
    have hanswers : m.Answers ⟨.root, .a, .internet⟩ := ⟨by decide, _, rfl, by decide⟩
    exact ⟨steady_truthful rfl hdecoded hanswers, hroot⟩
  obtain ⟨hentries, -⟩ := root_served (by decide) hdecoded hvalid
  have hentry : (rootKey, CacheEntry.mk 0 (.ofSeconds 30) m) ∈ (atFirst.run ops).cache.entries := by
    rw [hentries]
    exact List.mem_singleton_self _
  obtain ⟨hreceived, hanswered⟩ := atFirst.cached_as_received ops hcontract
  exact ⟨hcontract, htruthful, _, hentry, hreceived _ _ _ hentry,
    (hanswered htruthful).1 _ _ _ hroot hentry⟩

/-- What comes back is no response, and asks for something else. It is kept as the
answer to the question, and served as such three seconds later. -/
theorem caches_reflected_request :
    let response : Octets := #[0, 0, 0, 0, 0, 1, 0, 1, 0, 0, 0, 0,
      0, 0, 2, 0, 1, 0, 0, 1, 0, 1, 0, 0, 0, 30, 0, 4, 192, 0, 2, 7]
    let l := rootLookup response
    l.surroundings.KeepsContract ∧ l.client.config.useCache = true ∧
      (∃ e, (rootKey, e) ∈ (atFirst.run [.lookup l]).cache.entries ∧
        e.response.header.flag .response = false ∧
        e.response.firstQuestion? = some ⟨.root, .ns, .internet⟩ ∧
        ¬ e.response.Answers l.question) ∧
      ∃ r, (l.run id (atFirst.run [.lookup l, .pass 0 (· + .ofSeconds 3)])).1 = .ok r ∧
        r.fromCache = true ∧ ¬ r.message.Answers l.question := by
  intro response l
  let m : Message := rootAnswer 0 .ns
  have hdecoded : Message.ofOctets .empty response = .ok m :=
    ofOctets_rootAnswer _ _ rfl (by decide) (by decide) (by decide)
  have hvalid : Validity .default m (.ofSeconds 30) := (validity?_eq_some_iff _ _ _).1 (by decide)
  have hunanswered : ∀ m : Message, m.header = ⟨0, 0⟩ → ¬ m.Answers l.question := by
    rintro m hheader ⟨hresponse, -⟩
    rw [hheader] at hresponse
    cases hresponse
  obtain ⟨hentries, hserved⟩ := root_served (by decide) hdecoded hvalid
  have hentry : (rootKey, CacheEntry.mk 0 (.ofSeconds 30) m) ∈
      (atFirst.run [.lookup l]).cache.entries := by
    rw [hentries]
    exact List.mem_singleton_self _
  obtain ⟨trail, hresult⟩ := hserved (.ofSeconds 3) (by decide)
  exact ⟨steady_keepsContract response, rfl,
    ⟨_, hentry, by decide, rfl, hunanswered _ rfl⟩, _, hresult, rfl, hunanswered _ rfl⟩

end Sharing

end StubResolver
