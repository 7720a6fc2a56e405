import StubResolver.Transport.Tcp
import StubResolver.Transport.Udp

/-!
# Taking from and returning to the pools

To take from a row of a pool is to give up what cannot be used, down to the first
that can. What is below that one stays, and so do the other rows. What is returned
lies on top of its row.
-/

namespace StubResolver

/-- The first of the idle ones that can be used is found
if there is one, and those before it are given up. -/
structure TakenFrom {α : Type} (usable : α → Bool) (idle : List α) (found : Option α)
    (rest : List α) : Prop where
  split : ∃ stale, idle = stale ++ found.toList ++ rest ∧ ∀ c ∈ stale, usable c = false
  usable : ∀ c, found = some c → usable c = true
  emptied : found = none → rest = []

theorem takenFrom_dropWhile {α : Type} (usable : α → Bool) (idle : List α) :
    TakenFrom usable idle (idle.dropWhile fun c => !usable c).head?
      (idle.dropWhile fun c => !usable c).tail := by
  induction idle with
  | nil => exact ⟨⟨[], rfl, by simp⟩, by simp, fun _ => rfl⟩
  | cons c idle ih =>
      cases husable : usable c with
      | true =>
          rw [List.dropWhile_cons_of_neg (by simp [husable])]
          exact ⟨⟨[], rfl, by simp⟩, by simp [husable], fun h => by cases h⟩
      | false =>
          rw [List.dropWhile_cons_of_pos (by simp [husable])]
          obtain ⟨stale, hsplit, hstale⟩ := ih.split
          refine ⟨⟨c :: stale, ?_, List.forall_mem_cons.2 ⟨husable, hstale⟩⟩, ih.usable, ih.emptied⟩
          rw [List.cons_append, List.cons_append, ← hsplit]

theorem TakenFrom.of_all_usable {α : Type} {idle rest : List α} {found : Option α}
    (h : TakenFrom (fun _ => true) idle found rest) : idle = found.toList ++ rest := by
  obtain ⟨stale, hsplit, hstale⟩ := h.split
  cases stale with
  | nil => exact hsplit
  | cons c stale => cases hstale c List.mem_cons_self

theorem lookup_filter_ne {α β : Type} [DecidableEq α] {key other : α} (h : other ≠ key)
    (entries : List (α × β)) :
    (entries.filter fun entry => entry.1 ≠ key).lookup other = entries.lookup other := by
  induction entries with
  | nil => rfl
  | cons entry entries ih =>
      by_cases hkey : entry.1 = key
      · have hother : (other == entry.1) = false := beq_eq_false_iff_ne.2 (hkey ▸ h)
        rw [List.filter_cons_of_neg (by simp [hkey]), ih, List.lookup_cons, hother]
      · rw [List.filter_cons_of_pos (by simp [hkey]), List.lookup_cons, List.lookup_cons, ih]

namespace ConnectionPools

variable {server other : SocketAddress}

theorem idle_setIdle_of_ne (p : ConnectionPools) (h : other ≠ server)
    (connections : List TcpConnection) :
    (p.setIdle server connections).idle other = p.idle other := by
  have hother : (other == server) = false := beq_eq_false_iff_ne.2 h
  unfold idle setIdle
  rw [List.lookup_cons, hother, lookup_filter_ne h]

theorem setIdle_setIdle (p : ConnectionPools) (server : SocketAddress)
    (connections connections' : List TcpConnection) :
    (p.setIdle server connections).setIdle server connections' = p.setIdle server connections' := by
  unfold setIdle
  rw [List.filter_cons_of_neg (by simp), List.filter_filter]
  simp only [Bool.and_self]

theorem idle_push (p : ConnectionPools) (server : SocketAddress) (c : TcpConnection) :
    (p.push server c).idle server = c :: p.idle server ∧
      ∀ other, other ≠ server → (p.push server c).idle other = p.idle other :=
  ⟨p.idle_setIdle server _, fun _ h => p.idle_setIdle_of_ne h _⟩

theorem takeUsable_of_stale {p : ConnectionPools} {c : TcpConnection}
    {below : List TcpConnection} {usable : TcpConnection → Bool}
    (hidle : p.idle server = c :: below) (hstale : usable c = false) :
    p.takeUsable server usable = (p.setIdle server below).takeUsable server usable := by
  unfold takeUsable
  rw [hidle, List.dropWhile_cons_of_pos (by simp [hstale]), idle_setIdle]
  simp only [setIdle_setIdle]

theorem takeUsable_spec (p : ConnectionPools) (server : SocketAddress)
    (usable : TcpConnection → Bool) :
    let taken := p.takeUsable server usable
    TakenFrom usable (p.idle server) taken.1 (taken.2.idle server) ∧
      ∀ other, other ≠ server → taken.2.idle other = p.idle other := by
  have htaken := takenFrom_dropWhile usable (p.idle server)
  unfold takeUsable
  cases hrest : (p.idle server).dropWhile fun c => !usable c with
  | nil =>
      rw [hrest] at htaken
      exact ⟨by simpa using htaken, fun _ h => p.idle_setIdle_of_ne h _⟩
  | cons c below =>
      rw [hrest] at htaken
      exact ⟨by simpa using htaken, fun _ h => p.idle_setIdle_of_ne h _⟩

end ConnectionPools

namespace SocketPool

def idle (p : SocketPool) (isV4 : Bool) : List UdpSocket := if isV4 then p.v4 else p.v6

theorem take_spec (p : SocketPool) (isV4 : Bool) :
    let taken := p.take isV4
    TakenFrom (fun _ => true) (p.idle isV4) taken.1 (taken.2.idle isV4) ∧
      ∀ other, other ≠ isV4 → taken.2.idle other = p.idle other := by
  have hrow : ∀ row : List UdpSocket, TakenFrom (fun _ => true) row row.head? row.tail := by
    intro row
    have htaken := takenFrom_dropWhile (fun _ => true) row
    cases row with
    | nil => exact htaken
    | cons c below => exact htaken
  cases isV4 with
  | true => exact ⟨hrow p.v4, fun other h => by cases other <;> simp_all [take, idle]⟩
  | false => exact ⟨hrow p.v6, fun other h => by cases other <;> simp_all [take, idle]⟩

theorem idle_put (p : SocketPool) (c : UdpSocket) :
    (p.put c).idle c.isV4 = c :: p.idle c.isV4 ∧
      ∀ other, other ≠ c.isV4 → (p.put c).idle other = p.idle other := by
  unfold put idle
  cases c.isV4 with
  | true => exact ⟨rfl, fun other h => by cases other <;> simp_all⟩
  | false => exact ⟨rfl, fun other h => by cases other <;> simp_all⟩

end SocketPool

theorem Udp.exchangeOn_ends {σ : Type} (host : UdpHost σ) (config : UdpConfig)
    (server : SocketAddress) (request : Octets) (socket : UdpSocket) (pool : SocketPool)
    (world : σ) :
    let x := exchangeOn host config server request socket pool world
    (∃ response, x.result = some (.ok response) ∧
      x.pool = if config.poolSockets then pool.put socket else pool) ∨
    (x.result = none ∨ ∃ e, x.result = some (.error e)) ∧ x.pool = pool := by
  unfold exchangeOn
  split
  · exact .inr ⟨.inr ⟨_, rfl⟩, rfl⟩
  · split
    · exact .inr ⟨.inr ⟨_, rfl⟩, rfl⟩
    · split
      · exact .inr ⟨.inl rfl, rfl⟩
      · exact .inr ⟨.inr ⟨_, rfl⟩, rfl⟩
      · dsimp only
        split
        · exact .inr ⟨.inr ⟨_, rfl⟩, rfl⟩
        · exact .inl ⟨_, rfl, rfl⟩

end StubResolver
