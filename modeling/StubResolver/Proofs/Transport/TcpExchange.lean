import StubResolver.Proofs.Transport.Pools

/-!
# What a query over TCP does with connections

A query goes through the idle connections to its server, the one returned last first.
It gives up those that cannot be used again, and sends its request on the others
until it is answered; when none is left, it sends it on a new one. It leaves idle the
connection that has answered, on top of those it did not come to.
-/

namespace StubResolver.Tcp

variable {σ : Type}

inductive Act where
  | drop (connection : TcpConnection)
  | reuse (connection : TcpConnection) (outcome : Option (Except ClientError Octets))
  | unconnected (system : String)
  | fresh (connection : TcpConnection) (outcome : Option (Except ClientError Octets))

namespace Act

def idle? : Act → Option TcpConnection
  | drop c | reuse c _ => some c
  | unconnected _ | fresh _ _ => none

def isExchange : Act → Bool
  | reuse _ _ | fresh _ _ => true
  | drop _ | unconnected _ => false

inductive DoneIn (host : TcpHost σ) (config : TcpConfig) (server : SocketAddress)
    (request : Octets) : Act → σ → σ → Prop where
  | drop {c : TcpConnection} {world : σ}
      (stale : host.isReusable config.maxLifetime c world = false) :
      DoneIn host config server request (.drop c) world world
  | reuse {c : TcpConnection} {outcome : Option (Except ClientError Octets)} {world after : σ}
      (usable : host.isReusable config.maxLifetime c world = true)
      (sent : exchangeOn host c request world = (outcome, after)) :
      DoneIn host config server request (.reuse c outcome) world after
  | unconnected {system : String} {world after : σ}
      (refused : host.connect server world = (.error system, after)) :
      DoneIn host config server request (.unconnected system) world after
  | fresh {c : TcpConnection} {outcome : Option (Except ClientError Octets)}
      {world between after : σ} (connected : host.connect server world = (.ok c, between))
      (sent : exchangeOn host c request between = (outcome, after)) :
      DoneIn host config server request (.fresh c outcome) world after

inductive Passes : Act → Prop where
  | dropped (c : TcpConnection) : Passes (.drop c)
  | failed (c : TcpConnection) (e : ClientError) : Passes (.reuse c (some (.error e)))

/-- How a query ends with its last act, given the idle connections that it has not
come to: its result, if it does not wait forever, and the connections that are idle
then. -/
inductive Ends : Act → List TcpConnection → Option (Except ClientError Octets) →
    List TcpConnection → Prop where
  | answered (c : TcpConnection) (response : Octets) (untouched : List TcpConnection) :
      Ends (.reuse c (some (.ok response))) untouched (some (.ok response)) (c :: untouched)
  | waits (c : TcpConnection) (untouched : List TcpConnection) :
      Ends (.reuse c none) untouched none untouched
  | unconnected (system : String) :
      Ends (.unconnected system) [] (some (.error (.streamConnect system))) []
  | freshAnswered (c : TcpConnection) (response : Octets) :
      Ends (.fresh c (some (.ok response))) [] (some (.ok response)) [c]
  | freshFailed (c : TcpConnection) (e : ClientError) :
      Ends (.fresh c (some (.error e))) [] (some (.error e)) []
  | freshWaits (c : TcpConnection) : Ends (.fresh c none) [] none []

end Act

inductive Done (host : TcpHost σ) (config : TcpConfig) (server : SocketAddress)
    (request : Octets) : List Act → σ → σ → Prop where
  | nil (world : σ) : Done host config server request [] world world
  | cons {act : Act} {acts : List Act} {world between after : σ}
      (first : act.DoneIn host config server request world between)
      (rest : Done host config server request acts between after) :
      Done host config server request (act :: acts) world after

structure Account (host : TcpHost σ) (config : TcpConfig) (server : SocketAddress)
    (request : Octets) (pools : ConnectionPools) (world : σ) (x : Exchange σ) (passed : List Act)
    (last : Act) (untouched : List TcpConnection) : Prop where
  done : Done host config server request (passed ++ [last]) world x.world
  inOrder : (passed ++ [last]).filterMap Act.idle? ++ untouched = pools.idle server
  passes : ∀ act ∈ passed, act.Passes
  ends : last.Ends untouched x.result (x.pools.idle server)
  others : ∀ other, other ≠ server → x.pools.idle other = pools.idle other

section

variable {host : TcpHost σ} {config : TcpConfig} {server : SocketAddress} {request : Octets}
  {pools rest : ConnectionPools} {world between after : σ} {x : Exchange σ}
  {acts acts' passed : List Act} {last : Act} {untouched : List TcpConnection}

theorem Done.append (h : Done host config server request acts world between)
    (h' : Done host config server request acts' between after) :
    Done host config server request (acts ++ acts') world after := by
  induction h with
  | nil => exact h'
  | cons first _ ih => exact .cons first (ih h')

theorem done_single {act : Act} (h : act.DoneIn host config server request world after) :
    Done host config server request [act] world after :=
  .cons h (.nil after)

theorem done_drops {stale : List TcpConnection}
    (h : ∀ c ∈ stale, host.isReusable config.maxLifetime c world = false) :
    Done host config server request (stale.map .drop) world world := by
  induction stale with
  | nil => exact .nil world
  | cons c stale ih =>
      obtain ⟨hc, hstale⟩ := List.forall_mem_cons.1 h
      exact .cons (.drop hc) (ih hstale)

theorem filterMap_drops (stale : List TcpConnection) :
    (stale.map Act.drop).filterMap Act.idle? = stale := by
  simp [List.filterMap_map, Function.comp_def, Act.idle?]

theorem passes_drops (stale : List TcpConnection) : ∀ act ∈ stale.map Act.drop, act.Passes := by
  intro act hact
  obtain ⟨c, -, rfl⟩ := List.mem_map.1 hact
  exact .dropped c

theorem Account.prepend {before : List Act}
    (h : Account host config server request rest between x passed last untouched)
    (hdone : Done host config server request before world between)
    (hpasses : ∀ act ∈ before, act.Passes)
    (hidle : before.filterMap Act.idle? ++ rest.idle server = pools.idle server)
    (hothers : ∀ other, other ≠ server → rest.idle other = pools.idle other) :
    Account host config server request pools world x (before ++ passed) last untouched where
  done := by
    rw [List.append_assoc]
    exact hdone.append h.done
  inOrder := by
    rw [List.append_assoc, List.filterMap_append, List.append_assoc, h.inOrder, hidle]
  passes := List.forall_mem_append.2 ⟨hpasses, h.passes⟩
  ends := h.ends
  others other hother := (h.others other hother).trans (hothers other hother)

/-! ## A new connection -/

theorem account_fresh (host : TcpHost σ) (request : Octets)
    (hpool : config.poolConnections = true) (hempty : pools.idle server = []) (world : σ) :
    ∃ last, Account host config server request pools world
      (exchangeFresh host config server request pools world) [] last [] := by
  unfold exchangeFresh
  rcases hconnect : host.connect server world with ⟨system | c, between⟩
  · exact ⟨.unconnected system, done_single (.unconnected hconnect), hempty.symm, by simp,
      hempty ▸ .unconnected system, fun _ _ => rfl⟩
  · dsimp only
    rcases hsent : exchangeOn host c request between with ⟨_ | e | response, after⟩
    · exact ⟨.fresh c none, done_single (.fresh hconnect hsent), hempty.symm, by simp,
        hempty ▸ .freshWaits c, fun _ _ => rfl⟩
    · exact ⟨.fresh c (some (.error e)), done_single (.fresh hconnect hsent), hempty.symm, by simp,
        hempty ▸ .freshFailed c e, fun _ _ => rfl⟩
    · obtain ⟨hidle, hothers⟩ := pools.idle_push server c
      rw [hempty] at hidle
      dsimp only
      rw [if_pos hpool]
      exact ⟨.fresh c (some (.ok response)), done_single (.fresh hconnect hsent), hempty.symm,
        by simp, hidle ▸ .freshAnswered c response, hothers⟩

/-! ## Idle connections -/

structure Took (host : TcpHost σ) (config : TcpConfig) (server : SocketAddress)
    (request : Octets) (pools : ConnectionPools) (world : σ) (found : Option TcpConnection)
    (rest : ConnectionPools) (drops : List Act) : Prop where
  done : Done host config server request drops world world
  passes : ∀ act ∈ drops, act.Passes
  idle : drops.filterMap Act.idle? ++ found.toList ++ rest.idle server = pools.idle server
  usable : ∀ c, found = some c → host.isReusable config.maxLifetime c world = true
  emptied : found = none → rest.idle server = []
  others : ∀ other, other ≠ server → rest.idle other = pools.idle other

theorem took_of_takeIdle (request : Octets) (hpool : config.poolConnections = true)
    {found : Option TcpConnection}
    (htaken : takeIdle host config server pools world = (found, rest)) :
    ∃ drops, Took host config server request pools world found rest drops := by
  have hspec := pools.takeUsable_spec server fun c => host.isReusable config.maxLifetime c world
  unfold takeIdle at htaken
  rw [if_pos hpool] at htaken
  rw [htaken] at hspec
  obtain ⟨⟨⟨stale, hsplit, hstale⟩, husable, hemptied⟩, hothers⟩ := hspec
  refine ⟨stale.map .drop, done_drops hstale, passes_drops stale, ?_, husable, hemptied, hothers⟩
  rw [filterMap_drops, hsplit]

theorem Took.account_reuse {c : TcpConnection} {outcome : Option (Except ClientError Octets)}
    {drops : List Act}
    (h : Took host config server request pools world (some c) rest drops)
    (hsent : exchangeOn host c request world = (outcome, x.world))
    (hends : (Act.reuse c outcome).Ends (rest.idle server) x.result (x.pools.idle server))
    (hothers : ∀ other, other ≠ server → x.pools.idle other = rest.idle other) :
    Account host config server request pools world x drops (.reuse c outcome)
      (rest.idle server) where
  done := h.done.append (done_single (.reuse (h.usable c rfl) hsent))
  inOrder := by
    rw [← h.idle, List.filterMap_append]
    rfl
  passes := h.passes
  ends := hends
  others other hother := (hothers other hother).trans (h.others other hother)

/-! ## A whole query -/

theorem exchange_account (host : TcpHost σ) (server : SocketAddress) (request : Octets)
    (hpool : config.poolConnections = true) (pools : ConnectionPools) (world : σ) :
    ∃ passed last untouched, Account host config server request pools world
      (exchange host config server request pools world) passed last untouched := by
  -- Along the recursion, as each idle connection on which the request fails is passed.
  fun_induction exchange host config server request pools world with
  | case1 pools world rest htaken =>
      obtain ⟨drops, htook⟩ := took_of_takeIdle request hpool htaken
      obtain ⟨last, haccount⟩ := account_fresh host request hpool (htook.emptied rfl) world
      refine ⟨drops ++ [], last, [], haccount.prepend htook.done htook.passes ?_ htook.others⟩
      simpa using htook.idle
  | case2 pools world c rest htaken response after hsent =>
      obtain ⟨drops, htook⟩ := took_of_takeIdle request hpool htaken
      obtain ⟨hidle, hothers⟩ := rest.idle_push server c
      refine ⟨drops, _, _, htook.account_reuse hsent ?_ hothers⟩
      rw [hidle]
      exact .answered c response (rest.idle server)
  | case3 pools world c rest htaken e after hsent ih =>
      obtain ⟨drops, htook⟩ := took_of_takeIdle request hpool htaken
      obtain ⟨passed, last, untouched, haccount⟩ := ih
      have hdone := htook.done.append (done_single (.reuse (htook.usable c rfl) hsent))
      refine ⟨_, last, untouched, haccount.prepend hdone ?_ ?_ htook.others⟩
      · exact List.forall_mem_append.2
          ⟨htook.passes, List.forall_mem_singleton.2 (.failed c e)⟩
      · rw [List.filterMap_append]
        exact htook.idle
  | case4 pools world c rest htaken after hsent =>
      obtain ⟨drops, htook⟩ := took_of_takeIdle request hpool htaken
      exact ⟨drops, _, _, htook.account_reuse hsent (.waits c (rest.idle server)) fun _ _ => rfl⟩

/-! ## What the account tells -/

theorem Account.exchanges_le
    (h : Account host config server request pools world x passed last untouched) :
    (passed ++ [last]).countP Act.isExchange ≤ (pools.idle server).length + 1 := by
  -- All acts that are passed are on idle connections, and on one each.
  have hpassed : (passed.filterMap Act.idle?).length = passed.length := by
    rw [List.length_filterMap_eq_countP, List.countP_eq_length]
    intro act hact
    cases h.passes act hact <;> rfl
  have hidle := congrArg List.length h.inOrder
  rw [List.filterMap_append, List.length_append, List.length_append, hpassed] at hidle
  calc
    (passed ++ [last]).countP Act.isExchange ≤ (passed ++ [last]).length := List.countP_le_length
    _ ≤ (pools.idle server).length + 1 := by
      rw [List.length_append, List.length_singleton]
      omega

theorem Act.Ends.of_ok {untouched idle : List TcpConnection} {response : Octets}
    (h : last.Ends untouched (some (.ok response)) idle) :
    ∃ c, idle = c :: untouched ∧
      (last = .reuse c (some (.ok response)) ∨ last = .fresh c (some (.ok response))) := by
  cases h with
  | answered c => exact ⟨c, rfl, .inl rfl⟩
  | freshAnswered c => exact ⟨c, rfl, .inr rfl⟩

theorem Act.Ends.of_error {untouched idle : List TcpConnection} {e : ClientError}
    (h : last.Ends untouched (some (.error e)) idle) :
    untouched = [] ∧ idle = [] ∧
      ((∃ system, e = .streamConnect system ∧ last = .unconnected system) ∨
        ∃ c, last = .fresh c (some (.error e))) := by
  cases h with
  | unconnected system => exact ⟨rfl, rfl, .inl ⟨system, rfl, rfl⟩⟩
  | freshFailed c => exact ⟨rfl, rfl, .inr ⟨c, rfl⟩⟩

end

/-- With pooling, a query takes the idle connections to its server one after the
other, the one returned last first: those that cannot be used again are dropped, and
the request fails on the others, up to one on which it is answered. Only when none is
left is a connection opened, and only its failure is the failure of the query. The
connection that has answered lies on top of those that the query did not come to; if
it fails, none is idle any more. Other servers have no part in it. -/
theorem exchange_goes_through_idle {σ : Type} (host : TcpHost σ) (config : TcpConfig)
    (server : SocketAddress) (request : Octets) (pools : ConnectionPools) (world : σ)
    (hpool : config.poolConnections = true) :
    let x := exchange host config server request pools world
    ∃ passed last untouched,
      Account host config server request pools world x passed last untouched ∧
      (passed ++ [last]).countP Act.isExchange ≤ (pools.idle server).length + 1 ∧
      (∀ response, x.result = some (.ok response) → ∃ c, x.pools.idle server = c :: untouched ∧
        (last = .reuse c (some (.ok response)) ∨ last = .fresh c (some (.ok response)))) ∧
      ∀ e, x.result = some (.error e) → untouched = [] ∧ x.pools.idle server = [] ∧
        ((∃ system, e = .streamConnect system ∧ last = .unconnected system) ∨
          ∃ c, last = .fresh c (some (.error e))) := by
  intro x
  obtain ⟨passed, last, untouched, haccount⟩ :=
    exchange_account host server request hpool pools world
  refine ⟨passed, last, untouched, haccount, haccount.exchanges_le, fun response hok => ?_,
    fun e herror => ?_⟩
  · exact (hok ▸ haccount.ends).of_ok
  · exact (herror ▸ haccount.ends).of_error

/-- Of four idle connections the first is too old, and the second is closed as the
request is sent. The third answers, and the fourth stays as it is. -/
theorem exchange_past_old_and_closed :
    let host : TcpHost (List Nat) :=
      { connect := fun _ world => (.error "unreachable", world)
        isReusable := fun lifetime c _ => c.opened < lifetime
        write := fun c _ world =>
          (if c.id = 1 then .error "broken pipe" else .ok (), world ++ [c.id])
        incoming := fun _ _ => ⟨[0, 12, 7, 7, 0, 0, 0, 0, 0, 0, 0, 0, 0, 0], .waiting⟩
        consume := fun _ _ world => world }
    let server : SocketAddress := .v4 ⟨#v[192, 0, 2, 1]⟩ 53
    let config := TcpConfig.default
    let pools := ConnectionPools.empty.setIdle server
      [⟨0, config.maxLifetime⟩, ⟨1, 0⟩, ⟨2, 0⟩, ⟨3, 0⟩]
    let x := exchange host config server #[7, 7] pools []
    config.poolConnections = true ∧ x.world = [1, 2] ∧
      x.result = some (.ok #[7, 7, 0, 0, 0, 0, 0, 0, 0, 0, 0, 0]) ∧
      ∃ passed last untouched,
        Account host config server #[7, 7] pools [] x passed last untouched ∧
        ∃ c, x.pools.idle server = c :: untouched := by
  intro host server config pools x
  have hresult : x.result = some (.ok #[7, 7, 0, 0, 0, 0, 0, 0, 0, 0, 0, 0]) := by
    with_unfolding_all rfl
  obtain ⟨passed, last, untouched, haccount, -, hok, -⟩ :=
    exchange_goes_through_idle host config server #[7, 7] pools [] rfl
  obtain ⟨c, hidle, -⟩ := hok _ hresult
  exact ⟨rfl, by decide +kernel, hresult, passed, last, untouched, haccount, c, hidle⟩

end StubResolver.Tcp
