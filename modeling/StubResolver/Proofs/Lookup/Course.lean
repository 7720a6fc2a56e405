import StubResolver.Proofs.Cache.Entries
import StubResolver.Proofs.Lookup.Calls
import StubResolver.Proofs.Lookup.Running

/-!
# The course of a lookup

A lookup is told by its attempts, each with the calls it makes and what comes of
them. The attempts account for all that the lookup does: the calls that are made, the
request IDs that are used, the attempts that the audit trail knows of, and what the
cache holds that it did not hold before.
-/

namespace StubResolver.Lookup

variable {σ : Type}

/-! ## Attempts -/

def requestOctets (s : Setting σ) (id : UInt16) : Except ComposeError Octets :=
  ((Request.ofQuestion s.question s.config.recursion s.config.udpPayloadSize).setId id).toOctets

def firstProtocol (s : Setting σ) (server : NameServer) : Protocol :=
  if s.config.tcpOnly || server.prefersTcp then .tcp else .udp

def reading (s : Setting σ) (answer : Except ClientError Octets) : Except ClientError Message :=
  answer.bind (decode s)

/-- The response came over UDP and was cut short,
and such responses are asked for again. -/
def CutShort (s : Setting σ) (c : MadeCall σ) : Prop :=
  c.query.protocol = .udp ∧ s.config.tcpFallback = true ∧
    ∃ m, reading s (c.answer s) = .ok m ∧ m.isTruncated = true

structure Attempt (σ : Type) where
  server : NameServer
  number : Nat
  id : UInt16
  calls : List (MadeCall σ)
  outcome : Except ClientError Message

inductive Attempt.Proper (s : Setting σ) (a : Attempt σ) : Prop where
  | uncomposed {e : ComposeError} (request : requestOctets s a.id = .error e) (calls : a.calls = [])
      (outcome : a.outcome = .error (.compose e))
  | asked {octets : Octets} {c : MadeCall σ} (request : requestOctets s a.id = .ok octets)
      (query : c.query = ⟨a.server.address, firstProtocol s a.server, octets⟩)
      (whole : ¬ CutShort s c) (calls : a.calls = [c])
      (outcome : a.outcome = reading s (c.answer s))
  /-- The same is asked again over TCP, and only the second response counts. -/
  | followed {octets : Octets} {c d : MadeCall σ} (request : requestOctets s a.id = .ok octets)
      (query : c.query = ⟨a.server.address, firstProtocol s a.server, octets⟩)
      (cut : CutShort s c) (query' : d.query = ⟨a.server.address, .tcp, octets⟩)
      (calls : a.calls = [c, d]) (outcome : a.outcome = reading s (d.answer s))
  /-- The token is triggered before the same can be asked again. -/
  | interrupted {octets : Octets} {c : MadeCall σ} (request : requestOctets s a.id = .ok octets)
      (query : c.query = ⟨a.server.address, firstProtocol s a.server, octets⟩)
      (cut : CutShort s c) (canceled : (c.after s).isCanceled = true) (calls : a.calls = [c])
      (outcome : a.outcome = .error .canceled)

def Attempt.events (s : Setting σ) (a : Attempt σ) : AuditTrail :=
  if a.calls.isEmpty then []
  else [.attempt a.server.address (firstProtocol s a.server) a.number]

def Attempt.Stores (s : Setting σ) (config : CacheConfig) (a : Attempt σ)
    (entry : CacheKey × CacheEntry) : Prop :=
  a.outcome = .ok entry.2.response ∧ entry.1 = .of a.server.address s.question ∧
    validity? config entry.2.response = some entry.2.validFor

end StubResolver.Lookup

namespace StubResolver

def AuditEvent.isAttempt : AuditEvent → Bool
  | attempt _ _ _ => true
  | _ => false

def AuditTrail.attempts (trail : AuditTrail) : AuditTrail := trail.filter AuditEvent.isAttempt

namespace Lookup

variable {σ : Type}

structure Course (s : Setting σ) (p : Progress σ) (log : List (Attempt σ)) (q : Progress σ) :
    Prop where
  calls : Makes s p (log.flatMap Attempt.calls) q
  ids : log.map Attempt.id =
    (List.range' p.session.idsUsed log.length).map s.surroundings.requestId
  idsUsed : q.session.idsUsed = p.session.idsUsed + log.length
  trail : q.trail.map AuditTrail.attempts =
    p.trail.map fun t => t.attempts ++ log.flatMap (Attempt.events s)
  config : q.session.cache.config = p.session.cache.config
  entries : ∀ entry ∈ q.session.cache.entries, entry ∈ p.session.cache.entries ∨
    ∃ a ∈ log, a.Stores s p.session.cache.config entry

section

variable {s : Setting σ} {p q r : Progress σ} {log log' : List (Attempt σ)}

theorem Course.trans (h : Course s p log q) (h' : Course s q log' r) :
    Course s p (log ++ log') r where
  calls := by
    rw [List.flatMap_append]
    exact h.calls.trans h'.calls
  ids := by
    rw [List.map_append, h.ids, h'.ids, h.idsUsed, List.length_append, ← List.map_append,
      List.range'_append_1]
  idsUsed := by rw [h'.idsUsed, h.idsUsed, List.length_append, Nat.add_assoc]
  trail := by
    have hmap : ∀ events, (q.trail.map fun t => t.attempts ++ events) =
        (q.trail.map AuditTrail.attempts).map (· ++ events) := fun events => by
      rw [Option.map_map]
      rfl
    rw [h'.trail, hmap, h.trail, Option.map_map, List.flatMap_append]
    simp only [Function.comp_def, List.append_assoc]
  config := h'.config.trans h.config
  entries := by
    intro entry hentry
    rcases h'.entries entry hentry with hentry | ⟨a, ha, hstores⟩
    · refine (h.entries entry hentry).imp_right ?_
      rintro ⟨a, ha, hstores⟩
      exact ⟨a, List.mem_append_left _ ha, hstores⟩
    · rw [h.config] at hstores
      exact .inr ⟨a, List.mem_append_right _ ha, hstores⟩

/-! ## Steps between attempts -/

theorem Course.of_frame (h : Quiet p q) (hids : q.session.idsUsed = p.session.idsUsed)
    (htrail : q.trail.map AuditTrail.attempts = p.trail.map AuditTrail.attempts)
    (hcache : q.session.cache.config = p.session.cache.config)
    (hentries : ∀ entry ∈ q.session.cache.entries, entry ∈ p.session.cache.entries) :
    Course s p [] q where
  calls := .none h
  ids := rfl
  idsUsed := hids
  trail := by simpa using htrail
  config := hcache
  entries entry hentry := .inl (hentries entry hentry)

theorem Course.refl (p : Progress σ) : Course s p [] p :=
  .of_frame (.refl p) rfl rfl rfl fun _ hentry => hentry

theorem attempts_noting (p : Progress σ) (event : AuditEvent) :
    (p.noting event).trail.map AuditTrail.attempts =
      p.trail.map fun t => t.attempts ++ AuditTrail.attempts [event] := by
  unfold Progress.noting AuditTrail.attempts
  simp only [Option.map_map, Function.comp_def, List.filter_append]

theorem Course.noting (event : AuditEvent) (h : event.isAttempt = false) :
    Course s p [] (p.noting event) := by
  refine .of_frame ⟨rfl, rfl, rfl, rfl⟩ rfl ?_ rfl fun _ hentry => hentry
  have hnone : AuditTrail.attempts [event] = [] := by
    simp [AuditTrail.attempts, h]
  simp only [attempts_noting, hnone, List.append_nil]

theorem Course.at_server (server : Option SocketAddress) :
    Course s p [] { p with server := server } :=
  .of_frame ⟨rfl, rfl, rfl, rfl⟩ rfl rfl rfl fun _ hentry => hentry

/-! ## An attempt -/

theorem Course.of_attempt {a : Attempt σ} (started : Progress σ) (events : AuditTrail)
    (hid : a.id = s.surroundings.requestId p.session.idsUsed)
    (hcalls : Makes s started a.calls q) (hquiet : Quiet p started)
    (hidsUsed : q.session.idsUsed = p.session.idsUsed + 1)
    (htrail : q.trail = p.trail.map (· ++ events))
    (hevents : events.attempts = a.events s) (hcache : q.session.cache = p.session.cache) :
    Course s p [a] q where
  calls := by
    rw [List.flatMap_singleton]
    exact hquiet.makes hcalls
  ids := by simp [hid]
  idsUsed := hidsUsed
  trail := by
    rw [htrail, Option.map_map, List.flatMap_singleton, ← hevents]
    unfold AuditTrail.attempts
    simp only [Function.comp_def, List.filter_append]
  config := congrArg Cache.config hcache
  entries := by
    intro entry hentry
    rw [hcache] at hentry
    exact .inl hentry

theorem cutShort_iff {server : NameServer} {c : MadeCall σ} {m : Message}
    (hprotocol : c.query.protocol = firstProtocol s server)
    (hreading : reading s (c.answer s) = .ok m) :
    CutShort s c ↔
      (m.isTruncated && !(s.config.tcpOnly || server.prefersTcp) && s.config.tcpFallback) =
        true := by
  unfold CutShort
  rw [hprotocol, hreading, firstProtocol]
  cases s.config.tcpOnly || server.prefersTcp <;> simp [and_comm]

def Progress.takingId (p : Progress σ) : Progress σ :=
  { p with session := { p.session with idsUsed := p.session.idsUsed + 1 } }

theorem run_takeId (s : Setting σ) (p : Progress σ) :
    (takeId s).run p = (s.surroundings.requestId p.session.idsUsed, p.takingId) := rfl

def firstCall (s : Setting σ) (server : NameServer) (number : Nat) (octets : Octets)
    (p : Progress σ) : MadeCall σ where
  query := ⟨server.address, firstProtocol s server, octets⟩
  before := p.takingId.noting (.attempt server.address (firstProtocol s server) number)

def secondCall (s : Setting σ) (server : NameServer) (octets : Octets) (c : MadeCall σ) :
    MadeCall σ where
  query := ⟨server.address, .tcp, octets⟩
  before := (c.after s).noting (.truncatedRetryTcp server.address)

theorem run_attempt_of_error {e : ComposeError} (server : NameServer) (number : Nat)
    (hrequest : requestOctets s (s.surroundings.requestId p.session.idsUsed) = .error e) :
    (attempt s server number).run p = (.error (.compose e), p.takingId) := by
  unfold requestOctets at hrequest
  unfold attempt
  rw [run_bind, run_takeId]
  dsimp only
  rw [hrequest]
  rfl

theorem run_firstCall (s : Setting σ) (server : NameServer) (number : Nat) (octets : Octets)
    (p : Progress σ) :
    let protocol := if s.config.tcpOnly || server.prefersTcp then Protocol.tcp else .udp
    let c := firstCall s server number octets p
    (send s protocol server.address octets).run
        (p.takingId.noting (.attempt server.address protocol number)) = (c.answer s, c.after s) :=
  rfl

theorem run_attempt_of_ok (server : NameServer) (number : Nat) {octets : Octets}
    (hrequest : requestOctets s (s.surroundings.requestId p.session.idsUsed) = .ok octets) :
    let c := firstCall s server number octets p
    let d := secondCall s server octets c
    (¬ CutShort s c → (attempt s server number).run p = (reading s (c.answer s), c.after s)) ∧
      (CutShort s c → (attempt s server number).run p = (reading s (d.answer s), d.after s)) := by
  have hrun := run_firstCall s server number octets p
  unfold requestOctets at hrequest
  unfold attempt
  rw [run_bind, run_takeId]
  dsimp only at hrun ⊢
  rw [hrequest]
  dsimp only
  rw [run_bind, run_record, run_bind, hrun]
  have hprotocol : (firstCall s server number octets p).query.protocol = firstProtocol s server :=
    rfl
  generalize firstCall s server number octets p = c at hprotocol
  cases hanswer : c.answer s with
  | error e =>
      refine ⟨fun _ => rfl, ?_⟩
      rintro ⟨-, -, m, hreading, -⟩
      rw [hanswer] at hreading
      cases hreading
  | ok response =>
      have hreading : reading s (c.answer s) = decode s response := by rw [hanswer]; rfl
      dsimp only
      cases hdecode : decode s response with
      | error e =>
          rw [hdecode] at hreading
          rw [← hanswer]
          refine ⟨fun _ => by rw [hreading]; rfl, ?_⟩
          rintro ⟨-, -, m, hreading', -⟩
          rw [hreading] at hreading'
          cases hreading'
      | ok m =>
          rw [hdecode] at hreading
          rw [← hanswer, cutShort_iff hprotocol hreading, hreading]
          refine ⟨fun hwhole => ?_, fun hcut => ?_⟩
          · dsimp only
            rw [if_neg hwhole]
            rfl
          · dsimp only
            rw [if_pos hcut, run_bind, run_record, run_bind]
            have hsecond : (send s .tcp server.address octets).run
                ((c.after s).noting (.truncatedRetryTcp server.address)) =
                ((secondCall s server octets c).answer s, (secondCall s server octets c).after s) :=
              rfl
            rw [hsecond]
            cases hanswer' : (secondCall s server octets c).answer s <;> rfl

structure Attempted (s : Setting σ) (server : NameServer) (number : Nat) (p : Progress σ)
    (a : Attempt σ) (q : Progress σ) : Prop where
  run : (attempt s server number).run p = (a.outcome, q)
  server : a.server = server
  number : a.number = number
  proper : a.Proper s
  course : Course s p [a] q
  still : q.server = p.server

theorem attempted_of_error {server : NameServer} {number : Nat} {e : ComposeError}
    (hrequest : requestOctets s (s.surroundings.requestId p.session.idsUsed) = .error e) :
    ∃ a q, Attempted s server number p a q := by
  let id := s.surroundings.requestId p.session.idsUsed
  let a : Attempt σ := ⟨server, number, id, [], .error (.compose e)⟩
  have hcourse : Course s p [a] p.takingId := by
    refine .of_attempt p [] rfl (.none ?_) (.refl p) rfl ?_ rfl rfl
    · exact ⟨rfl, rfl, rfl, rfl⟩
    · simp [Progress.takingId]
  exact ⟨a, p.takingId, run_attempt_of_error server number hrequest, rfl, rfl,
    .uncomposed hrequest rfl rfl, hcourse, rfl⟩

section

variable {server : NameServer} {number : Nat} {octets : Octets}

theorem quiet_firstCall : Quiet p (firstCall s server number octets p).before :=
  ⟨rfl, rfl, rfl, rfl⟩

theorem quiet_secondCall (server : NameServer) (octets : Octets) (c : MadeCall σ) :
    Quiet (c.after s) (secondCall s server octets c).before := ⟨rfl, rfl, rfl, rfl⟩

theorem trail_secondCall :
    (secondCall s server octets (firstCall s server number octets p)).before.trail =
      p.trail.map (· ++ [.attempt server.address (firstProtocol s server) number,
        .truncatedRetryTcp server.address]) := by
  obtain ⟨-, -, htrail, -⟩ := (firstCall s server number octets p).after_frame (s := s)
  change ((firstCall s server number octets p).after s).trail.map _ = _
  rw [htrail]
  change (p.trail.map _).map _ = _
  rw [Option.map_map]
  simp only [Function.comp_def, List.append_assoc, List.singleton_append]

theorem attempted_of_whole (hlive : p.isCanceled = false)
    (hrequest : requestOctets s (s.surroundings.requestId p.session.idsUsed) = .ok octets)
    (hwhole : ¬ CutShort s (firstCall s server number octets p)) :
    ∃ a q, Attempted s server number p a q := by
  obtain ⟨hrun, -⟩ := run_attempt_of_ok server number hrequest
  let c := firstCall s server number octets p
  obtain ⟨hcache, hids, htrail, hserver⟩ := c.after_frame (s := s)
  have hcLive : c.before.isCanceled = false := quiet_firstCall.isCanceled_eq.trans hlive
  let id := s.surroundings.requestId p.session.idsUsed
  let a : Attempt σ := ⟨server, number, id, [c], reading s (c.answer s)⟩
  exact ⟨a, c.after s, hrun hwhole, rfl, rfl, .asked hrequest rfl hwhole rfl rfl,
    .of_attempt _ _ rfl (makes_call hcLive) quiet_firstCall hids htrail rfl hcache, hserver⟩

theorem attempted_of_cutShort (hlive : p.isCanceled = false)
    (hrequest : requestOctets s (s.surroundings.requestId p.session.idsUsed) = .ok octets)
    (hcut : CutShort s (firstCall s server number octets p)) :
    ∃ a q, Attempted s server number p a q := by
  obtain ⟨-, hrun⟩ := run_attempt_of_ok server number hrequest
  let c := firstCall s server number octets p
  let d := secondCall s server octets c
  let id := s.surroundings.requestId p.session.idsUsed
  obtain ⟨hcache, hids, -, hserver⟩ := c.after_frame (s := s)
  obtain ⟨hcache', hids', htrail', hserver'⟩ := d.after_frame (s := s)
  have hcLive : c.before.isCanceled = false := quiet_firstCall.isCanceled_eq.trans hlive
  cases hcanceled : (c.after s).isCanceled with
  | true =>
      have hsecond : d.run s = (.error .canceled, d.before) :=
        run_send_of_canceled ((quiet_secondCall _ _ c).isCanceled_eq.trans hcanceled) _ _ _
      have hend : (reading s (d.answer s), d.after s) = (.error .canceled, d.before) := by
        rw [MadeCall.answer, MadeCall.after, hsecond]
        rfl
      let a : Attempt σ := ⟨server, number, id, [c], .error .canceled⟩
      exact ⟨a, d.before, (hrun hcut).trans hend, rfl, rfl,
        .interrupted hrequest rfl hcut hcanceled rfl rfl,
        .of_attempt _ _ rfl (.call (.refl _) hcLive (.none (quiet_secondCall _ _ c)))
          quiet_firstCall hids
          trail_secondCall rfl hcache, hserver⟩
  | false =>
      have hdLive := (quiet_secondCall server octets c).isCanceled_eq.trans
        hcanceled
      let a : Attempt σ := ⟨server, number, id, [c, d], reading s (d.answer s)⟩
      exact ⟨a, d.after s, hrun hcut, rfl, rfl, .followed hrequest rfl hcut rfl rfl rfl,
        .of_attempt _ _ rfl (.call (.refl _) hcLive (.call (quiet_secondCall _ _ c) hdLive
          (.none (.refl _)))) quiet_firstCall (hids'.trans hids) (htrail'.trans trail_secondCall)
          rfl (hcache'.trans hcache), hserver'.trans hserver⟩

end

theorem attempted (server : NameServer) (number : Nat) (hlive : p.isCanceled = false) :
    ∃ a q, Attempted s server number p a q := by
  cases hrequest : requestOctets s (s.surroundings.requestId p.session.idsUsed) with
  | error e => exact attempted_of_error hrequest
  | ok octets =>
      by_cases hcut : CutShort s (firstCall s server number octets p)
      · exact attempted_of_cutShort hlive hrequest hcut
      · exact attempted_of_whole hlive hrequest hcut

end

end Lookup

end StubResolver
