import StubResolver.Proofs.Lookup.Steps

/-!
# The calls of a lookup

A lookup makes its calls one after the other: each begins with what the one before it
has left, as far as the transports, the time, and the token are concerned. A call
ends within the time limit, and once the token is triggered no further one is made.
-/

namespace StubResolver.Lookup

variable {σ : Type}

structure MadeCall (σ : Type) where
  query : Query
  before : Progress σ

namespace MadeCall

def run (s : Setting σ) (c : MadeCall σ) : Except ClientError Octets × Progress σ :=
  (send s c.query.protocol c.query.server c.query.request).run c.before

def answer (s : Setting σ) (c : MadeCall σ) : Except ClientError Octets := (c.run s).1

def after (s : Setting σ) (c : MadeCall σ) : Progress σ := (c.run s).2

end MadeCall

structure Quiet (p q : Progress σ) : Prop where
  world : q.session.world = p.session.world
  time : q.session.time = p.session.time
  queries : q.session.queries = p.session.queries
  token : q.token = p.token

theorem Quiet.refl (p : Progress σ) : Quiet p p := ⟨rfl, rfl, rfl, rfl⟩

theorem Quiet.trans {p q r : Progress σ} (h : Quiet p q) (h' : Quiet q r) : Quiet p r where
  world := h'.world.trans h.world
  time := h'.time.trans h.time
  queries := h'.queries.trans h.queries
  token := h'.token.trans h.token

theorem Quiet.isCanceled_eq {p q : Progress σ} (h : Quiet p q) : q.isCanceled = p.isCanceled := by
  unfold Progress.isCanceled
  rw [h.time, h.token]

/-- Exactly these calls are made from one progress to
the other, none of them with the token triggered. -/
inductive Makes (s : Setting σ) : Progress σ → List (MadeCall σ) → Progress σ → Prop where
  | none {p q : Progress σ} (quiet : Quiet p q) : Makes s p [] q
  | call {p q : Progress σ} {c : MadeCall σ} {calls : List (MadeCall σ)}
      (quiet : Quiet p c.before) (live : c.before.isCanceled = false)
      (rest : Makes s (c.after s) calls q) : Makes s p (c :: calls) q

section

variable {s : Setting σ} {p q r : Progress σ} {c : MadeCall σ} {calls calls' : List (MadeCall σ)}

theorem Quiet.makes (h : Quiet p q) (h' : Makes s q calls r) : Makes s p calls r := by
  cases h' with
  | none quiet => exact .none (h.trans quiet)
  | call quiet live rest => exact .call (h.trans quiet) live rest

theorem Makes.trans (h : Makes s p calls q) (h' : Makes s q calls' r) :
    Makes s p (calls ++ calls') r := by
  induction h with
  | none quiet => exact quiet.makes h'
  | call quiet live rest ih => exact .call quiet live (ih h')

theorem makes_call (live : c.before.isCanceled = false) : Makes s c.before [c] (c.after s) :=
  .call (.refl _) live (.none (.refl _))

/-! ## What a call does -/

theorem run_send_of_canceled (h : p.isCanceled = true) (protocol : Protocol)
    (server : SocketAddress) (request : Octets) :
    (send s protocol server request).run p = (.error .canceled, p) := by
  unfold send
  simp only [run_bind, run_get, h, if_true]
  rfl

theorem within_ready_le (limit : Duration) (outcome : Pending Octets) :
    ∃ time, (outcome.within limit).ready = some time ∧ time ≤ limit := by
  unfold Pending.within
  cases hready : outcome.ready with
  | none => exact ⟨limit, rfl, Nat.le_refl _⟩
  | some time =>
      by_cases hle : time ≤ limit
      · exact ⟨time, by simp [hle, hready], hle⟩
      · exact ⟨limit, by simp [hle], Nat.le_refl _⟩

theorem settle_ready_le (timeout : Duration) (token : Option Duration)
    (outcome : Pending Octets) : (settle timeout token outcome).ready.getD 0 ≤ timeout := by
  obtain ⟨time, hready, hle⟩ := within_ready_le timeout outcome
  unfold settle
  split
  · rwa [hready]
  · cases token with
    | none => rwa [Pending.unlessCanceled, hready]
    | some trigger =>
        simp only [Pending.unlessCanceled, hready]
        split
        · rename_i hbefore
          exact Nat.le_trans hbefore hle
        · rwa [hready]

theorem within_result (limit : Duration) (outcome : Pending Octets) :
    (outcome.within limit).result = outcome.result ∨
      (outcome.within limit).result = .error .timeout := by
  unfold Pending.within
  split
  · split
    · exact .inl rfl
    · exact .inr rfl
  · exact .inr rfl

theorem settle_result_of_ok {timeout : Duration} {token : Option Duration}
    {outcome : Pending Octets} {octets : Octets}
    (h : (settle timeout token outcome).result = .ok octets) : outcome.result = .ok octets := by
  have hwithin : (outcome.within timeout).result = .ok octets := by
    unfold settle Pending.unlessCanceled at h
    grind
  rcases within_result timeout outcome with hsame | hlate
  · exact hsame.symm.trans hwithin
  · cases hlate.symm.trans hwithin

theorem MadeCall.queries_after (live : c.before.isCanceled = false) :
    (c.after s).session.queries = c.before.session.queries ++ [c.query] := by
  unfold after run send
  simp only [run_bind, run_get, live, Bool.false_eq_true, if_false]
  rfl

theorem MadeCall.time_after_le (live : c.before.isCanceled = false) :
    (c.after s).session.time ≤ c.before.session.time + s.config.timeout := by
  unfold after run send
  simp only [run_bind, run_get, live, Bool.false_eq_true, if_false]
  exact Nat.add_le_add_left (settle_ready_le ..) _

theorem MadeCall.after_frame (c : MadeCall σ) :
    (c.after s).session.cache = c.before.session.cache ∧
      (c.after s).session.idsUsed = c.before.session.idsUsed ∧
      (c.after s).trail = c.before.trail ∧ (c.after s).server = c.before.server := by
  unfold after run
  cases hcanceled : c.before.isCanceled with
  | true =>
      rw [run_send_of_canceled hcanceled]
      exact ⟨rfl, rfl, rfl, rfl⟩
  | false =>
      unfold send
      simp only [run_bind, run_get, hcanceled, Bool.false_eq_true, if_false]
      exact ⟨rfl, rfl, rfl, rfl⟩

/-! ## What calls add up to -/

theorem Makes.queries_eq (h : Makes s p calls q) :
    q.session.queries = p.session.queries ++ calls.map MadeCall.query := by
  induction h with
  | none quiet => simp [quiet.queries]
  | @call p q c calls quiet live rest ih =>
      rw [ih, MadeCall.queries_after live, quiet.queries, List.map_cons, List.append_assoc,
        List.singleton_append]

theorem Makes.time_le (h : Makes s p calls q) :
    q.session.time ≤ p.session.time + calls.length * s.config.timeout := by
  induction h with
  | none quiet => simp [quiet.time]
  | @call p q c calls quiet live rest ih =>
      have hcall := MadeCall.time_after_le (s := s) live
      rw [quiet.time] at hcall
      calc
        q.session.time ≤ (c.after s).session.time + calls.length * s.config.timeout := ih
        _ ≤ p.session.time + s.config.timeout + calls.length * s.config.timeout :=
          Nat.add_le_add_right hcall _
        _ = p.session.time + (c :: calls).length * s.config.timeout := by
          rw [List.length_cons, Nat.succ_mul, Nat.add_assoc,
            Nat.add_comm (calls.length * s.config.timeout)]

end

end StubResolver.Lookup
