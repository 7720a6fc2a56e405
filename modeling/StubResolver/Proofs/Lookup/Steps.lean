import Mathlib.Tactic.Choose
import StubResolver.Lookup.Run

/-!
# The steps of a lookup that is left alone

As long as nobody triggers the token, what a step does is told by the session it
begins with: the token stays as it is, and the audit trail only looks on.
-/

namespace StubResolver.Lookup

variable {σ α β : Type}

def NeverTriggered (surroundings : Surroundings σ) (token : Token) : Prop :=
  token = .unheld ∨ token = .held none ∧ ∀ protocol server request time world,
    (surroundings.query protocol server request time world).1.cancels = false

theorem neverTriggered_unheld (surroundings : Surroundings σ) :
    NeverTriggered surroundings .unheld := .inl rfl

theorem NeverTriggered.time?_eq_none {surroundings : Surroundings σ} {token : Token}
    (h : NeverTriggered surroundings token) : token.time? = none := by
  rcases h with rfl | ⟨rfl, -⟩ <;> rfl

theorem NeverTriggered.isTriggered_eq_false {surroundings : Surroundings σ} {token : Token}
    (h : NeverTriggered surroundings token) (time : Duration) : token.isTriggered time = false := by
  unfold Token.isTriggered
  rw [h.time?_eq_none]

theorem NeverTriggered.after_call {surroundings : Surroundings σ} {token : Token}
    (h : NeverTriggered surroundings token) (protocol : Protocol) (server : SocketAddress)
    (request : Octets) (time : Duration) (world : σ) :
    (if (surroundings.query protocol server request time world).1.cancels
      then token.triggerAt time else token) = token := by
  rcases h with rfl | ⟨rfl, hcancels⟩
  · split <;> rfl
  · rw [hcancels]
    rfl

/-! ## Running steps -/

theorem run_bind (x : Step σ α) (f : α → Step σ β) (p : Progress σ) :
    (x >>= f).run p = (f (x.run p).1).run (x.run p).2 := rfl

theorem run_get (p : Progress σ) : (get : Step σ (Progress σ)).run p = (p, p) := rfl

theorem run_modify (f : Progress σ → Progress σ) (p : Progress σ) :
    (modify f : Step σ PUnit).run p = (⟨⟩, f p) := rfl

theorem settle_none (timeout : Duration) (outcome : Pending Octets) :
    settle timeout none outcome = outcome.within timeout := by
  unfold settle
  split <;> rfl

def exchange (s : Setting σ) (protocol : Protocol) (server : SocketAddress) (request : Octets)
    (session : Session σ) : Except ClientError Octets × Session σ :=
  let (call, world) := s.surroundings.query protocol server request session.time session.world
  let final := call.outcome.within s.config.timeout
  (final.result,
    { session with
      world := world
      time := session.time + final.ready.getD 0
      queries := session.queries ++ [⟨server, protocol, request⟩] })

theorem run_send {s : Setting σ} {p : Progress σ} (h : NeverTriggered s.surroundings p.token)
    (protocol : Protocol) (server : SocketAddress) (request : Octets) :
    (send s protocol server request).run p =
      ((exchange s protocol server request p.session).1,
        { p with session := (exchange s protocol server request p.session).2 }) := by
  have hcanceled : p.isCanceled = false := h.isTriggered_eq_false _
  have htoken := h.after_call protocol server request p.session.time p.session.world
  rcases hquery : s.surroundings.query protocol server request p.session.time p.session.world with
    ⟨call, world⟩
  rw [hquery] at htoken
  unfold send exchange
  simp only [run_bind, run_get, hcanceled, hquery, htoken, h.time?_eq_none, Option.map_none,
    settle_none, Bool.false_eq_true, if_false]
  rfl

def Runs (x : Step σ α) (p : Progress σ) (a : α) (session : Session σ) : Prop :=
  ∃ trail, x.run p = (a, { p with session := session, trail := trail })

theorem runs_pure (a : α) (p : Progress σ) : Runs (pure a) p a p.session := ⟨p.trail, rfl⟩

theorem runs_record (event : AuditEvent) (p : Progress σ) :
    Runs (record event) p () p.session :=
  ⟨p.trail.map (· ++ [event]), rfl⟩

theorem runs_isCanceled {s : Setting σ} {p : Progress σ}
    (h : NeverTriggered s.surroundings p.token) : Runs isCanceled p false p.session := by
  have hcanceled : p.isCanceled = false := h.isTriggered_eq_false _
  refine ⟨p.trail, ?_⟩
  rw [← hcanceled]
  rfl

theorem Runs.bind {x : Step σ α} {f : α → Step σ β} {p : Progress σ} {a : α} {b : β}
    {session session' : Session σ} (hx : Runs x p a session)
    (hf : ∀ trail, Runs (f a) { p with session := session, trail := trail } b session') :
    Runs (x >>= f) p b session' := by
  obtain ⟨trail, hx⟩ := hx
  obtain ⟨trail', hf⟩ := hf trail
  refine ⟨trail', ?_⟩
  rw [run_bind, hx, hf]

/-- The step ends as wanted, and leaves all
but the session and the trail as they are. -/
def Leads (x : Step σ α) (p : Progress σ) (post : α → Session σ → Prop) : Prop :=
  ∃ a session, Runs x p a session ∧ post a session

theorem Runs.leads {x : Step σ α} {p : Progress σ} {a : α} {session : Session σ}
    {post : α → Session σ → Prop} (h : Runs x p a session) (hpost : post a session) :
    Leads x p post :=
  ⟨a, session, h, hpost⟩

theorem Leads.bind {x : Step σ α} {f : α → Step σ β} {p : Progress σ}
    {post : α → Session σ → Prop} {post' : β → Session σ → Prop} (hx : Leads x p post)
    (hf : ∀ a session trail, post a session →
      Leads (f a) { p with session := session, trail := trail } post') :
    Leads (x >>= f) p post' := by
  obtain ⟨a, session, ⟨trail, hx⟩, hpost⟩ := hx
  obtain ⟨b, session', ⟨trail', hf⟩, hpost'⟩ := hf a session trail hpost
  refine ⟨b, session', ⟨trail', ?_⟩, hpost'⟩
  rw [run_bind, hx, hf]

theorem Runs.leads_bind {x : Step σ α} {f : α → Step σ β} {p : Progress σ} {a : α}
    {session : Session σ} {post : β → Session σ → Prop} (hx : Runs x p a session)
    (hf : ∀ trail, Leads (f a) { p with session := session, trail := trail } post) :
    Leads (x >>= f) p post := by
  have hleads : Leads x p fun a' session' => a' = a ∧ session' = session := hx.leads ⟨rfl, rfl⟩
  refine hleads.bind ?_
  rintro _ _ trail ⟨rfl, rfl⟩
  exact hf trail

theorem Leads.mono {x : Step σ α} {p : Progress σ} {post post' : α → Session σ → Prop}
    (h : Leads x p post) (hpost : ∀ a session, post a session → post' a session) :
    Leads x p post' := by
  obtain ⟨a, session, hruns, hx⟩ := h
  exact ⟨a, session, hruns, hpost a session hx⟩

/-! ## Steps that are put together from others -/

/-- The property passes from steps to what is put together from them. -/
structure Compositional (P : (α : Type) → Step σ α → Prop) : Prop where
  pure {α : Type} (a : α) : P α (pure a)
  bind {α β : Type} {x : Step σ α} {f : α → Step σ β} : P α x → (∀ a, P β (f a)) → P β (x >>= f)
  record (event : AuditEvent) : P Unit (record event)

namespace Compositional

variable {P : (α : Type) → Step σ α → Prop} (h : Compositional P) {s : Setting σ}

include h

theorem attempt (htakeId : P _ (takeId s))
    (hsend : ∀ protocol server request, P _ (send s protocol server request))
    (server : NameServer) (number : Nat) : P _ (attempt s server number) := by
  unfold Lookup.attempt
  refine h.bind htakeId fun id => ?_
  dsimp only
  split
  · exact h.pure _
  · refine h.bind (h.record _) fun _ => h.bind (hsend _ _ _) fun response => ?_
    split
    · exact h.pure _
    · split
      · exact h.pure _
      · split
        · refine h.bind (h.record _) fun _ => h.bind (hsend _ _ _) fun response => ?_
          split <;> exact h.pure _
        · exact h.pure _

theorem fail (hfailure : ∀ e response, P _ (failure s e response)) (e : ClientError) :
    P _ (fail s e) :=
  h.bind (hfailure e none) fun _ => h.pure _

variable (hfailure : ∀ e response, P _ (failure s e response))
  (hsucceed : ∀ m server fromCache, P _ (succeed m server fromCache))

include hfailure hsucceed

theorem endWithDnsError (m : Message) (server : SocketAddress) :
    P _ (endWithDnsError s m server) := by
  unfold Lookup.endWithDnsError
  split
  · exact h.bind (hfailure _ _) fun _ => h.pure _
  · exact hsucceed m server false

theorem judge {key : CacheKey} (hstore : s.config.useCache = true → ∀ m, P _ (store s key m))
    (server : SocketAddress) (outcome : Except ClientError Message) :
    P _ (judge s server key outcome) := by
  have hanswered : ∀ m, P _ (do return Verdict.finished (← succeed m server false)) := fun m =>
    h.bind (hsucceed m server false) fun _ => h.pure _
  unfold Lookup.judge
  split
  · split
    · exact h.bind (h.record _) fun _ => h.pure _
    · exact h.bind (h.fail hfailure _) fun _ => h.pure _
  · refine h.bind (h.record _) fun _ => ?_
    dsimp only
    split
    · refine h.bind (h.record _) fun _ => ?_
      split
      · exact h.bind (h.record _) fun _ => h.pure _
      · exact h.bind (h.endWithDnsError hfailure hsucceed _ _) fun _ => h.pure _
    · split
      · rename_i huse
        exact h.bind (hstore huse _) fun _ => hanswered _
      · exact hanswered _

theorem conclude (hserver : ∀ server, P PUnit (modify fun p => { p with server := server }))
    (tally : Tally) : P _ (conclude s tally) := by
  unfold Lookup.conclude
  split
  · exact h.bind (hserver _) fun _ => h.endWithDnsError hfailure hsucceed _ _
  · split <;> exact h.fail hfailure _

variable (hcanceled : P _ isCanceled) (htakeId : P _ (takeId s))
  (hsend : ∀ protocol server request, P _ (send s protocol server request))
  (hstore : s.config.useCache = true → ∀ key m, P _ (store s key m))

include hcanceled htakeId hsend hstore

theorem attempts (server : NameServer) (key : CacheKey) (number : Nat) (tally : Tally)
    (left : Nat) : P _ (attempts s server key number tally left) := by
  induction left generalizing number tally with
  | zero => exact h.pure _
  | succ left ih =>
      unfold Lookup.attempts
      refine h.bind hcanceled fun canceled => ?_
      split
      · exact h.bind (h.fail hfailure _) fun _ => h.pure _
      · refine h.bind (h.attempt htakeId hsend _ _) fun outcome => ?_
        refine h.bind (h.judge hfailure hsucceed (hstore · key) _ _) fun verdict => ?_
        cases verdict with
        | finished result => exact h.pure _
        | nextServer m => exact h.pure _
        | nextAttempt e => exact ih (number + 1) (tally.add e)

variable (hserver : ∀ server, P PUnit (modify fun p => { p with server := server }))
  (hcached : ∀ key, P _ (cached s key))

include hserver hcached

theorem walk (tally : Tally) (servers : List NameServer) : P _ (walk s tally servers) := by
  induction servers generalizing tally with
  | nil => exact h.conclude hfailure hsucceed hserver tally
  | cons server rest ih =>
      unfold Lookup.walk
      refine h.bind hcanceled fun canceled => ?_
      split
      · exact h.fail hfailure _
      · refine h.bind (hserver _) fun _ => h.bind (hcached _) fun found => ?_
        cases found with
        | some m => exact h.bind (h.record _) fun _ => hsucceed m _ true
        | none =>
            have hasked := h.attempts hfailure hsucceed hcanceled htakeId hsend hstore server
            refine h.bind (hasked _ 0 tally _) fun outcome => ?_
            cases outcome with
            | finished result => exact h.pure _
            | goOn next => exact ih next

theorem lookup (servers : List NameServer) : P _ (lookup s servers) := by
  unfold Lookup.lookup
  split
  · exact h.fail hfailure _
  · exact h.bind (h.record _) fun _ =>
      h.walk hfailure hsucceed hcanceled htakeId hsend hstore hserver hcached .empty _

end Compositional

/-! ## Attempts -/

def Blind (s : Setting σ) (x : Step σ α) : Prop :=
  ∃ f : Session σ → α × Session σ, ∀ p, NeverTriggered s.surroundings p.token →
    Runs x p (f p.session).1 (f p.session).2

section

variable {s : Setting σ}

theorem blind_takeId : Blind s (takeId s) :=
  ⟨fun session => (s.surroundings.requestId session.idsUsed,
    { session with idsUsed := session.idsUsed + 1 }), fun p _ => ⟨p.trail, rfl⟩⟩

theorem blind_send (protocol : Protocol) (server : SocketAddress) (request : Octets) :
    Blind s (send s protocol server request) :=
  ⟨exchange s protocol server request, fun p h => ⟨p.trail, run_send h protocol server request⟩⟩

theorem Blind.bind {x : Step σ α} {f : α → Step σ β} (hx : Blind s x) (hf : ∀ a, Blind s (f a)) :
    Blind s (x >>= f) := by
  obtain ⟨g, hg⟩ := hx
  choose k hk using hf
  refine ⟨fun session => k (g session).1 (g session).2, fun p h => ?_⟩
  exact (hg p h).bind fun trail =>
    hk (g p.session).1 { p with session := (g p.session).2, trail := trail } h

theorem compositional_blind (s : Setting σ) : Compositional fun _ x => Blind s x where
  pure a := ⟨fun session => (a, session), fun p _ => runs_pure a p⟩
  bind := Blind.bind
  record event := ⟨fun session => ((), session), fun p _ => runs_record event p⟩

end

def ask (s : Setting σ) (server : NameServer) (number : Nat) (session : Session σ) :
    Except ClientError Message × Session σ :=
  let (outcome, p) := (attempt s server number).run ⟨session, .unheld, none, none⟩
  (outcome, p.session)

theorem runs_attempt {s : Setting σ} {p : Progress σ} (h : NeverTriggered s.surroundings p.token)
    (server : NameServer) (number : Nat) :
    Runs (attempt s server number) p (ask s server number p.session).1
      (ask s server number p.session).2 := by
  obtain ⟨f, hf⟩ := (compositional_blind s).attempt blind_takeId blind_send server number
  obtain ⟨trail, hask⟩ := hf ⟨p.session, .unheld, none, none⟩ (neverTriggered_unheld _)
  have hask : ask s server number p.session = f p.session := by
    unfold ask
    rw [hask]
  rw [hask]
  exact hf p h

/-! ## Ends -/

theorem runs_failure (s : Setting σ) (e : ClientError) (response : Option Message)
    (p : Progress σ) :
    ∃ trail, Runs (failure s e response) p ⟨e, s.question, p.server, trail, response⟩ p.session :=
  ⟨p.trail.map (· ++ [.ended none]), _, rfl⟩

theorem runs_fail (s : Setting σ) (e : ClientError) (p : Progress σ) :
    ∃ trail, Runs (fail s e) p (.error ⟨e, s.question, p.server, trail, none⟩) p.session := by
  obtain ⟨trail, hfailure⟩ := runs_failure s e none p
  exact ⟨trail, hfailure.bind fun _ => runs_pure _ _⟩

theorem runs_succeed (m : Message) (server : SocketAddress) (fromCache : Bool) (p : Progress σ) :
    ∃ trail, Runs (succeed m server fromCache) p (.ok ⟨m, server, fromCache, trail⟩) p.session :=
  ⟨p.trail.map (· ++ [.ended (some m.size)]), _, rfl⟩

end StubResolver.Lookup
