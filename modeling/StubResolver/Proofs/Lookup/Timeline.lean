import StubResolver.Proofs.Lookup.Transcript

/-!
# The calls of a lookup under a token

A lookup whose token nobody holds makes certain calls. With the token held, the
lookup goes the same way as long as each call is over before the token is triggered.
The first call during which that happens is cut off, and so is the lookup.
-/

namespace StubResolver.Lookup

variable {σ α β : Type} {s : Setting σ} {p q : Progress σ} {c : MadeCall σ}
  {calls calls' : List (MadeCall σ)} {trigger : Option Duration} {θ : Duration}

def Progress.holding (p : Progress σ) (trigger : Option Duration) : Progress σ :=
  { p with token := .held trigger }

def Live (trigger : Option Duration) (p : Progress σ) : Prop :=
  ∀ t, trigger = some t → p.session.time < t

theorem Live.isCanceled_eq (h : Live trigger p) : (p.holding trigger).isCanceled = false := by
  cases trigger with
  | none => rfl
  | some t => exact decide_eq_false (Nat.not_le.2 (h t rfl))

theorem Live.of_quiet (h : Live trigger p) (hquiet : Quiet p q) : Live trigger q := by
  unfold Live
  rw [hquiet.time]
  exact h

/-! ## A single call -/

namespace MadeCall

def start (c : MadeCall σ) : Duration := c.before.session.time

def completion (s : Setting σ) (c : MadeCall σ) : Duration := (c.after s).session.time

def transportCall (s : Setting σ) (c : MadeCall σ) : Call :=
  (s.surroundings.query c.query.protocol c.query.server c.query.request c.before.session.time
    c.before.session.world).1

structure Passes (s : Setting σ) (trigger : Option Duration) (c : MadeCall σ) : Prop where
  calm : (c.transportCall s).cancels = false
  early : ∀ t, trigger = some t → c.completion s < t

/-- The token is triggered before the call is over, by the call itself or not. -/
inductive Interrupted (s : Setting σ) (trigger : Option Duration) (c : MadeCall σ) :
    Duration → Prop where
  | byCall (cancels : (c.transportCall s).cancels = true) (long : c.start < c.completion s) :
      Interrupted s trigger c c.start
  | during {θ : Duration} (calm : (c.transportCall s).cancels = false) (at_ : trigger = some θ)
      (early : θ < c.completion s) : Interrupted s trigger c θ

def cutOff (s : Setting σ) (c : MadeCall σ) (θ : Duration) : Progress σ :=
  { c.after s with
    session := { (c.after s).session with time := θ }
    token := .held (some θ) }

end MadeCall

theorem settle_some (timeout token : Duration) (outcome : Pending Octets) :
    settle timeout (some token) outcome =
      if (outcome.within timeout).ready.getD 0 < token then outcome.within timeout
      else if outcome.ready = some 0 then outcome.within timeout
      else ⟨some token, .error .canceled⟩ := by
  obtain ⟨time, hready, -⟩ := within_ready_le timeout outcome
  unfold settle
  simp only [Pending.unlessCanceled, hready, Option.getD_some]
  by_cases hover : outcome.ready = some 0
  · simp [hover]
  · by_cases htoken : token ≤ time
    · simp [hover, htoken, Nat.not_lt.2 htoken]
    · simp [hover, htoken, Nat.lt_of_not_le htoken]

theorem MadeCall.run_of_unheld (h : c.before.token = .unheld) :
    c.run s = ((exchange s c.query.protocol c.query.server c.query.request c.before.session).1,
      { c.before with session :=
        (exchange s c.query.protocol c.query.server c.query.request c.before.session).2 }) :=
  run_send (.inl h) _ _ _

theorem MadeCall.completion_eq (h : c.before.token = .unheld) :
    c.completion s = c.start +
      ((c.transportCall s).outcome.within s.config.timeout).ready.getD 0 := by
  unfold completion after
  rw [run_of_unheld h]
  rfl

/-- When the token is triggered, as far as that is known once the call has begun. -/
def MadeCall.triggerAfter (s : Setting σ) (trigger : Option Duration) (c : MadeCall σ) :
    Option Duration :=
  if (c.transportCall s).cancels then some c.start else trigger

theorem run_send_of_live (hlive : p.isCanceled = false) (protocol : Protocol)
    (server : SocketAddress) (request : Octets) :
    (send s protocol server request).run p =
      let (call, world) := s.surroundings.query protocol server request p.session.time
        p.session.world
      let token := if call.cancels then p.token.triggerAt p.session.time else p.token
      let final := settle s.config.timeout (token.time?.map (· - p.session.time)) call.outcome
      (final.result, { p with
        session := { p.session with
          world := world
          time := p.session.time + final.ready.getD 0
          queries := p.session.queries ++ [⟨server, protocol, request⟩] }
        token := token }) := by
  unfold send
  simp only [run_bind, run_get, hlive, Bool.false_eq_true, if_false]
  rfl

theorem MadeCall.run_send_holding (hunheld : c.before.token = .unheld)
    (hlive : Live trigger c.before) :
    let final := settle s.config.timeout ((c.triggerAfter s trigger).map (· - c.start))
      (c.transportCall s).outcome
    (send s c.query.protocol c.query.server c.query.request).run (c.before.holding trigger) =
      (final.result, { c.after s with
        session := { (c.after s).session with time := c.start + final.ready.getD 0 }
        token := .held (c.triggerAfter s trigger) }) := by
  unfold after
  rw [run_of_unheld hunheld, run_send_of_live hlive.isCanceled_eq]
  cases hcancels : (c.transportCall s).cancels with
  | true =>
      have htrigger : c.triggerAfter s trigger = some c.start := if_pos hcancels
      unfold transportCall at hcancels
      rw [htrigger]
      dsimp only [Progress.holding]
      rw [if_pos hcancels]
      rfl
  | false =>
      have htrigger : c.triggerAfter s trigger = trigger := if_neg (by simp [hcancels])
      unfold transportCall at hcancels
      rw [htrigger]
      dsimp only [Progress.holding]
      rw [if_neg (by simp [hcancels])]
      rfl

theorem MadeCall.Passes.run_send (h : c.Passes s trigger) (hunheld : c.before.token = .unheld)
    (hlive : Live trigger c.before) :
    (send s c.query.protocol c.query.server c.query.request).run (c.before.holding trigger) =
      (c.answer s, (c.after s).holding trigger) := by
  have htrigger : c.triggerAfter s trigger = trigger := if_neg (Bool.not_eq_true _ ▸ h.calm)
  have hsettle : settle s.config.timeout (trigger.map (· - c.start)) (c.transportCall s).outcome =
      (c.transportCall s).outcome.within s.config.timeout := by
    cases trigger with
    | none => exact settle_none _ _
    | some t =>
        have hearly := h.early t rfl
        rw [completion_eq hunheld] at hearly
        rw [Option.map_some, settle_some, if_pos]
        exact Nat.lt_sub_of_add_lt (Nat.add_comm _ _ ▸ hearly)
  rw [run_send_holding hunheld hlive, htrigger, hsettle, ← completion_eq hunheld]
  unfold answer
  rw [run_of_unheld hunheld]
  rfl

theorem MadeCall.Interrupted.bounds (h : c.Interrupted s trigger θ)
    (hlive : Live trigger c.before) : c.start ≤ θ ∧ θ < c.completion s := by
  cases h with
  | byCall _ long => exact ⟨Nat.le_refl _, long⟩
  | during _ at_ early => exact ⟨Nat.le_of_lt (hlive θ at_), early⟩

theorem MadeCall.Interrupted.run_send (h : c.Interrupted s trigger θ)
    (hunheld : c.before.token = .unheld) (hlive : Live trigger c.before) :
    (send s c.query.protocol c.query.server c.query.request).run (c.before.holding trigger) =
      (.error .canceled, c.cutOff s θ) := by
  have htrigger : c.triggerAfter s trigger = some θ := by
    cases h with
    | byCall cancels _ => exact if_pos cancels
    | during calm at_ _ => exact (if_neg (Bool.not_eq_true _ ▸ calm)).trans at_
  obtain ⟨hstart, hearly⟩ := h.bounds hlive
  rw [completion_eq hunheld] at hearly
  have hlong : ¬ (c.transportCall s).outcome.ready = some 0 := by
    intro hover
    simp [Pending.within, hover, Nat.not_lt.2 hstart] at hearly
  have hsettle : settle s.config.timeout (some (θ - c.start)) (c.transportCall s).outcome =
      ⟨some (θ - c.start), .error .canceled⟩ := by
    rw [settle_some, if_neg, if_neg hlong]
    exact Nat.not_lt.2 (Nat.le_of_lt (Nat.sub_lt_left_of_lt_add hstart hearly))
  rw [run_send_holding hunheld hlive, htrigger, Option.map_some, hsettle]
  unfold cutOff
  rw [Option.getD_some, Nat.add_sub_cancel' hstart]

/-! ## The calls that are made -/

theorem MadeCall.token_after (h : c.before.token = .unheld) : (c.after s).token = .unheld := by
  unfold after
  rw [run_of_unheld h]
  exact h

theorem MadeCall.start_le_completion (h : c.before.token = .unheld) : c.start ≤ c.completion s := by
  rw [completion_eq h]
  exact Nat.le_add_right _ _

theorem Makes.unheld (h : Makes s p calls q) (hunheld : p.token = .unheld) :
    q.token = .unheld := by
  induction h with
  | none quiet => exact quiet.token.trans hunheld
  | call quiet _ _ ih => exact ih (MadeCall.token_after (quiet.token.trans hunheld))

theorem Makes.live (h : Makes s p calls q) (hlive : Live trigger p)
    (hpass : ∀ c ∈ calls, c.Passes s trigger) : Live trigger q := by
  induction h with
  | none quiet => exact hlive.of_quiet quiet
  | call _ _ _ ih =>
      obtain ⟨hfirst, hrest⟩ := List.forall_mem_cons.1 hpass
      exact ih hfirst.early hrest

inductive StopsIn (s : Setting σ) (trigger : Option Duration) :
    List (MadeCall σ) → MadeCall σ → Duration → Prop where
  | here {c : MadeCall σ} {calls : List (MadeCall σ)} {θ : Duration}
      (interrupted : c.Interrupted s trigger θ) : StopsIn s trigger (c :: calls) c θ
  | later {b c : MadeCall σ} {calls : List (MadeCall σ)} {θ : Duration}
      (passes : b.Passes s trigger) (rest : StopsIn s trigger calls c θ) :
      StopsIn s trigger (b :: calls) c θ

theorem StopsIn.of_append (h : StopsIn s trigger (calls ++ calls') c θ) :
    StopsIn s trigger calls c θ ∨
      (∀ b ∈ calls, b.Passes s trigger) ∧ StopsIn s trigger calls' c θ := by
  induction calls with
  | nil => exact .inr ⟨by simp, h⟩
  | cons b calls ih =>
      cases h with
      | here interrupted => exact .inl (.here interrupted)
      | later passes rest =>
          refine (ih rest).imp (.later passes) ?_
          rintro ⟨hpass, hstop⟩
          exact ⟨List.forall_mem_cons.2 ⟨passes, hpass⟩, hstop⟩

theorem StopsIn.split (h : StopsIn s trigger calls c θ) :
    ∃ before after, calls = before ++ c :: after ∧ (∀ b ∈ before, b.Passes s trigger) ∧
      c.Interrupted s trigger θ := by
  induction h with
  | here interrupted => exact ⟨[], _, rfl, by simp, interrupted⟩
  | later passes _ ih =>
      obtain ⟨before, after, rfl, hpass, hinterrupted⟩ := ih
      exact ⟨_ :: before, after, rfl, List.forall_mem_cons.2 ⟨passes, hpass⟩, hinterrupted⟩

/-- With nobody holding the token, the step makes these calls. With the token held it
makes them too, up to one that is interrupted, and `stop` tells how it ends then. -/
structure Timeline (s : Setting σ) (x : Step σ α) (p : Progress σ) (calls : List (MadeCall σ))
    (stop : MadeCall σ → Duration → α × Progress σ) : Prop where
  makes : Makes s p calls (x.run p).2
  passes : ∀ trigger, Live trigger p → (∀ c ∈ calls, c.Passes s trigger) →
    x.run (p.holding trigger) = ((x.run p).1, (x.run p).2.holding trigger)
  stops : ∀ trigger c θ, Live trigger p → StopsIn s trigger calls c θ →
    x.run (p.holding trigger) = stop c θ

theorem Timeline.bind {x : Step σ α} {f : α → Step σ β}
    {stop : MadeCall σ → Duration → α × Progress σ}
    {stop' : MadeCall σ → Duration → β × Progress σ} (hx : Timeline s x p calls stop)
    (hf : Timeline s (f (x.run p).1) (x.run p).2 calls' stop')
    (hstop : ∀ c θ, (f (stop c θ).1).run (stop c θ).2 = stop' c θ) :
    Timeline s (x >>= f) p (calls ++ calls') stop' where
  makes := hx.makes.trans hf.makes
  passes trigger hlive hpass := by
    obtain ⟨hpass, hpass'⟩ := List.forall_mem_append.1 hpass
    rw [run_bind, hx.passes trigger hlive hpass]
    exact hf.passes trigger (hx.makes.live hlive hpass) hpass'
  stops trigger c θ hlive h := by
    rw [run_bind]
    -- A call of the first step is cut off, or all of them pass and leave the token live.
    rcases h.of_append with hfirst | ⟨hpass, hsecond⟩
    · rw [hx.stops trigger c θ hlive hfirst]
      exact hstop c θ
    · rw [hx.passes trigger hlive hpass]
      exact hf.stops trigger c θ (hx.makes.live hlive hpass) hsecond

theorem timeline_send (hunheld : c.before.token = .unheld) :
    Timeline s (send s c.query.protocol c.query.server c.query.request) c.before [c]
      fun c θ => (.error .canceled, c.cutOff s θ) where
  makes := makes_call (by rw [Progress.isCanceled, hunheld]; rfl)
  passes trigger hlive hpass := (hpass c (List.mem_singleton_self c)).run_send hunheld hlive
  stops trigger d θ hlive h := by
    cases h with
    | here interrupted => exact interrupted.run_send hunheld hlive
    | later passes rest => cases rest

theorem timeline_send_bind {f : Except ClientError Octets → Step σ β}
    {stop : MadeCall σ → Duration → β × Progress σ} (hunheld : c.before.token = .unheld)
    (hf : Timeline s (f (c.answer s)) (c.after s) calls stop)
    (hstop : ∀ c θ, (f (.error .canceled)).run (c.cutOff s θ) = stop c θ) :
    Timeline s (send s c.query.protocol c.query.server c.query.request >>= f) c.before (c :: calls)
      stop :=
  (timeline_send hunheld).bind hf hstop

/-! ## Steps that make no call -/

def Timeless (x : Step σ α) : Prop :=
  ∀ p, Quiet p (x.run p).2 ∧
    ∀ token, x.run { p with token := token } = ((x.run p).1, { (x.run p).2 with token := token })

theorem timeless_pure (a : α) : Timeless (pure a : Step σ α) :=
  fun p => ⟨.refl p, fun _ => rfl⟩

theorem timeless_record (event : AuditEvent) : Timeless (record event : Step σ Unit) :=
  fun _ => ⟨⟨rfl, rfl, rfl, rfl⟩, fun _ => rfl⟩

theorem Timeless.bind {x : Step σ α} {f : α → Step σ β} (hx : Timeless x)
    (hf : ∀ a, Timeless (f a)) : Timeless (x >>= f) := by
  intro p
  obtain ⟨hquiet, htoken⟩ := hx p
  obtain ⟨hquiet', htoken'⟩ := hf (x.run p).1 (x.run p).2
  refine ⟨hquiet.trans hquiet', fun token => ?_⟩
  rw [run_bind, htoken, htoken']
  rfl

theorem Timeless.timeline {x : Step σ α} (h : Timeless x) (p : Progress σ)
    (stop : MadeCall σ → Duration → α × Progress σ) : Timeline s x p [] stop where
  makes := .none (h p).1
  passes trigger _ _ := (h p).2 (.held trigger)
  stops trigger c θ _ hstop := by cases hstop

theorem Timeless.timeline_bind {x : Step σ α} {f : α → Step σ β}
    {stop : MadeCall σ → Duration → β × Progress σ} (hx : Timeless x)
    (hf : Timeline s (f (x.run p).1) (x.run p).2 calls stop) :
    Timeline s (x >>= f) p calls stop where
  makes := (hx p).1.makes hf.makes
  passes trigger hlive hpass := by
    rw [run_bind, Progress.holding, (hx p).2]
    exact hf.passes trigger (hlive.of_quiet (hx p).1) hpass
  stops trigger c θ hlive h := by
    rw [run_bind, Progress.holding, (hx p).2]
    exact hf.stops trigger c θ (hlive.of_quiet (hx p).1) h

theorem compositional_timeless : Compositional fun _ x => Timeless (σ := σ) x where
  pure := timeless_pure
  bind := Timeless.bind
  record := timeless_record

theorem timeless_failure (e : ClientError) (response : Option Message) :
    Timeless (failure s e response) :=
  fun _ => ⟨⟨rfl, rfl, rfl, rfl⟩, fun _ => rfl⟩

theorem timeless_succeed (m : Message) (server : SocketAddress) (fromCache : Bool) :
    Timeless (succeed m server fromCache : Step σ LookupResult) :=
  fun _ => ⟨⟨rfl, rfl, rfl, rfl⟩, fun _ => rfl⟩

theorem timeless_judge (server : SocketAddress) (key : CacheKey)
    (outcome : Except ClientError Message) : Timeless (judge s server key outcome) :=
  compositional_timeless.judge timeless_failure timeless_succeed
    (fun _ _ _ => ⟨⟨rfl, rfl, rfl, rfl⟩, fun _ => rfl⟩) server outcome

theorem timeless_cached (key : CacheKey) : Timeless (cached s key) := by
  unfold cached
  split
  · exact fun _ => ⟨⟨rfl, rfl, rfl, rfl⟩, fun _ => rfl⟩
  · exact timeless_pure none

theorem timeless_atServer (server : Option SocketAddress) :
    Timeless (modify fun p => { p with server := server } : Step σ PUnit) :=
  fun _ => ⟨⟨rfl, rfl, rfl, rfl⟩, fun _ => rfl⟩

theorem timeless_conclude (tally : Tally) : Timeless (conclude s tally) :=
  compositional_timeless.conclude timeless_failure timeless_succeed timeless_atServer tally

/-! ## The calls of a lookup -/

def attemptCalls (s : Setting σ) (server : NameServer) (number : Nat) (p : Progress σ) :
    List (MadeCall σ) :=
  match requestOctets s (s.surroundings.requestId p.session.idsUsed) with
  | .error _ => []
  | .ok octets =>
    let c := firstCall s server number octets p
    match reading s (c.answer s) with
    | .error _ => [c]
    | .ok m =>
      if m.isTruncated && !(s.config.tcpOnly || server.prefersTcp) && s.config.tcpFallback then
        [c, secondCall s server octets c]
      else [c]

def attemptsCalls (s : Setting σ) (server : NameServer) (key : CacheKey) (number : Nat) :
    (left : Nat) → Progress σ → List (MadeCall σ)
  | 0, _ => []
  | left + 1, p =>
    let tried := (attempt s server number).run p
    let judged := (judge s server.address key tried.1).run tried.2
    attemptCalls s server number p ++
      match judged.1 with
      | .nextAttempt _ => attemptsCalls s server key (number + 1) left judged.2
      | _ => []

def walkCalls (s : Setting σ) (tally : Tally) : List NameServer → Progress σ → List (MadeCall σ)
  | [], _ => []
  | server :: rest, p =>
    let key := CacheKey.of server.address s.question
    let consulted := (cached s key).run { p with server := some server.address }
    match consulted.1 with
    | some _ => []
    | none =>
      let asked := (attempts s server key 0 tally (s.config.retries + 1)).run consulted.2
      attemptsCalls s server key 0 (s.config.retries + 1) consulted.2 ++
        match asked.1 with
        | .finished _ => []
        | .goOn tally => walkCalls s tally rest asked.2

def lookupCalls (s : Setting σ) (servers : List NameServer) (p : Progress σ) : List (MadeCall σ) :=
  if servers.isEmpty then []
  else walkCalls s .empty (s.order servers)
    (p.noting (.resolvedServers ((s.order servers).map NameServer.address)))

theorem timeline_attempt (server : NameServer) (number : Nat) (hunheld : p.token = .unheld) :
    Timeline s (attempt s server number) p (attemptCalls s server number p)
      fun c θ => (.error .canceled, c.cutOff s θ) := by
  have htakeId : Timeless (takeId s) := fun _ => ⟨⟨rfl, rfl, rfl, rfl⟩, fun _ => rfl⟩
  unfold attempt attemptCalls
  refine htakeId.timeline_bind ?_
  rw [run_takeId]
  cases hrequest : requestOctets s (s.surroundings.requestId p.session.idsUsed) with
  | error e =>
      unfold requestOctets at hrequest
      dsimp only
      rw [hrequest]
      exact (timeless_pure _).timeline _ _
  | ok octets =>
      let c := firstCall s server number octets p
      unfold requestOctets at hrequest
      dsimp only
      rw [hrequest]
      refine (timeless_record _).timeline_bind ?_
      cases hanswer : c.answer s with
      | error e =>
          refine timeline_send_bind (c := c) hunheld ?_ fun _ _ => rfl
          rw [hanswer]
          exact (timeless_pure _).timeline _ _
      | ok response =>
          have hreading : reading s (.ok response) = decode s response := rfl
          rw [hreading]
          cases hdecode : decode s response with
          | error e =>
              refine timeline_send_bind (c := c) hunheld ?_ fun _ _ => rfl
              simp only [hanswer, hdecode]
              exact (timeless_pure _).timeline _ _
          | ok m =>
              dsimp only
              cases hagain : m.isTruncated && !(s.config.tcpOnly || server.prefersTcp) &&
                  s.config.tcpFallback with
              | false =>
                  refine timeline_send_bind (c := c) hunheld ?_ fun _ _ => rfl
                  simp only [hanswer, hdecode, hagain, Bool.false_eq_true, if_false]
                  exact (timeless_pure _).timeline _ _
              | true =>
                  let d := secondCall s server octets c
                  have hunheld' : d.before.token = .unheld := MadeCall.token_after (c := c) hunheld
                  refine timeline_send_bind (c := c) hunheld ?_ fun _ _ => rfl
                  simp only [hanswer, hdecode, hagain, if_true]
                  refine (timeless_record _).timeline_bind ?_
                  refine timeline_send_bind (c := d) hunheld' ?_ fun _ _ => rfl
                  cases d.answer s <;> exact (timeless_pure _).timeline _ _

theorem timeline_unlessCanceled {x y : Step σ α} {stop : MadeCall σ → Duration → α × Progress σ}
    (hunheld : p.token = .unheld) (hy : Timeline s y p calls stop) :
    Timeline s (do if ← isCanceled then x else y) p calls stop := by
  have hgo : ∀ q : Progress σ, q.isCanceled = false →
      (do if ← isCanceled then x else y : Step σ α).run q = y.run q := by
    intro q hq
    rw [run_bind, run_isCanceled, hq]
    rfl
  have hcalm : p.isCanceled = false := by
    rw [Progress.isCanceled, hunheld]
    rfl
  refine ⟨?_, fun trigger hlive hpass => ?_, fun trigger c θ hlive h => ?_⟩
  · rw [hgo p hcalm]
    exact hy.makes
  · rw [hgo p hcalm, hgo _ hlive.isCanceled_eq]
    exact hy.passes trigger hlive hpass
  · rw [hgo _ hlive.isCanceled_eq]
    exact hy.stops trigger c θ hlive h

def MadeCall.canceled (s : Setting σ) (c : MadeCall σ) (θ : Duration) :
    LookupResult × Progress σ :=
  (fail s .canceled).run (c.cutOff s θ)

theorem timeline_attempts (server : NameServer) (key : CacheKey) (number : Nat) (tally : Tally)
    (left : Nat) (hunheld : p.token = .unheld) :
    Timeline s (attempts s server key number tally left) p
      (attemptsCalls s server key number left p)
      fun c θ => (.finished (c.canceled s θ).1, (c.canceled s θ).2) := by
  induction left generalizing number tally p with
  | zero => exact (timeless_pure _).timeline _ _
  | succ left ih =>
      have hattempt := timeline_attempt (s := s) server number hunheld
      unfold attempts attemptsCalls
      dsimp only
      refine timeline_unlessCanceled hunheld (hattempt.bind ?_ fun c θ => rfl)
      have hq := hattempt.makes.unheld hunheld
      generalize (attempt s server number).run p = tried at hq
      obtain ⟨outcome, q⟩ := tried
      have hjudge := timeless_judge (s := s) server.address key outcome
      refine hjudge.timeline_bind ?_
      have hr := (hjudge q).1.token.trans hq
      dsimp only at hr ⊢
      generalize (judge s server.address key outcome).run q = judged at hr
      obtain ⟨verdict, r⟩ := judged
      cases verdict with
      | nextAttempt e => exact ih (number + 1) (tally.add e) hr
      | finished result => exact (timeless_pure _).timeline _ _
      | nextServer m => exact (timeless_pure _).timeline _ _

theorem timeline_walk (tally : Tally) (servers : List NameServer) (hunheld : p.token = .unheld) :
    Timeline s (walk s tally servers) p (walkCalls s tally servers p) (MadeCall.canceled s) := by
  induction servers generalizing tally p with
  | nil => exact (timeless_conclude tally).timeline _ _
  | cons server rest ih =>
      unfold walk walkCalls
      refine timeline_unlessCanceled hunheld ?_
      refine (timeless_atServer (some server.address)).timeline_bind ?_
      rw [run_modify]
      have hcached := timeless_cached (s := s) (.of server.address s.question)
      refine hcached.timeline_bind ?_
      have hq := (hcached { p with server := some server.address }).1.token.trans hunheld
      dsimp only
      generalize (cached s (.of server.address s.question)).run
        { p with server := some server.address } = consulted at hq
      obtain ⟨found, q⟩ := consulted
      cases found with
      | some m => exact ((timeless_record _).bind fun _ => timeless_succeed _ _ _).timeline _ _
      | none =>
          have hattempts := timeline_attempts (s := s) server (.of server.address s.question) 0
            tally (s.config.retries + 1) hq
          dsimp only
          refine hattempts.bind ?_ fun c θ => rfl
          have hr := hattempts.makes.unheld hq
          dsimp only at hr ⊢
          generalize (attempts s server (.of server.address s.question) 0 tally
            (s.config.retries + 1)).run q = asked at hr
          obtain ⟨outcome, r⟩ := asked
          cases outcome with
          | finished result => exact (timeless_pure _).timeline _ _
          | goOn tally => exact ih tally hr

/-- With the token held, a lookup makes the calls that it would make otherwise, up to
one during which the token is triggered. -/
theorem timeline_lookup (servers : List NameServer) (hunheld : p.token = .unheld) :
    Timeline s (lookup s servers) p (lookupCalls s servers p) (MadeCall.canceled s) := by
  unfold lookup lookupCalls
  split
  · exact (compositional_timeless.fail timeless_failure _).timeline _ _
  · exact (timeless_record _).timeline_bind (timeline_walk .empty _ hunheld)

end StubResolver.Lookup
