import StubResolver.Proofs.Transport.Pools

/-!
# Queries without pooling

A TCP transport that does not pool opens a connection for each query, and leaves
those that are idle as they are. A UDP transport that does not pool returns no
socket, but it takes those that are idle: each query uses up the socket on top of the
row of its address family, and binds one only if there is none.
-/

namespace StubResolver

abbrev ServerQuery := SocketAddress × Octets

def inTurn {ι α β : Type} (run : ι → α → β × α) : List ι → α → List β × α
  | [], a => ([], a)
  | i :: is, a =>
    let (b, a) := run i a
    let (bs, a) := inTurn run is a
    (b :: bs, a)

theorem inTurn_of_frame {ι α β γ : Type} {run : ι → γ × α → β × γ × α} {own : ι → α → β × α}
    {c : γ} {is : List ι} (h : ∀ i ∈ is, ∀ a, run i (c, a) = ((own i a).1, c, (own i a).2))
    (a : α) :
    inTurn run is (c, a) = ((inTurn own is a).1, c, (inTurn own is a).2) := by
  induction is generalizing a with
  | nil => rfl
  | cons i is ih =>
      obtain ⟨hi, his⟩ := List.forall_mem_cons.1 h
      simp only [inTurn, hi, ih his]

/-! ## TCP -/

namespace Tcp

variable {σ : Type}

def query (host : TcpHost σ) (config : TcpConfig) (q : ServerQuery) :
    ConnectionPools × σ → Option (Except ClientError Octets) × ConnectionPools × σ
  | (pools, world) =>
    let x := exchange host config q.1 q.2 pools world
    (x.result, x.pools, x.world)

def queryOnOwn (host : TcpHost σ) (q : ServerQuery) (world : σ) :
    Option (Except ClientError Octets) × σ :=
  match host.connect q.1 world with
  | (.error e, world) => (some (.error (.streamConnect e)), world)
  | (.ok connection, world) => exchangeOn host connection q.2 world

theorem exchange_of_unpooled {host : TcpHost σ} {config : TcpConfig}
    (h : config.poolConnections = false) (server : SocketAddress) (request : Octets)
    (pools : ConnectionPools) (world : σ) :
    exchange host config server request pools world =
      exchangeFresh host config server request pools world := by
  have htake : takeIdle host config server pools world = (none, pools) := by simp [takeIdle, h]
  rw [exchange]
  split
  · rename_i hnone
    cases htake.symm.trans hnone
    rfl
  · rename_i hsome
    cases htake.symm.trans hsome

theorem query_of_unpooled {host : TcpHost σ} {config : TcpConfig}
    (h : config.poolConnections = false) (q : ServerQuery) (pools : ConnectionPools) (world : σ) :
    query host config q (pools, world) =
      ((queryOnOwn host q world).1, pools, (queryOnOwn host q world).2) := by
  dsimp only [query]
  rw [exchange_of_unpooled h]
  unfold exchangeFresh queryOnOwn
  rcases host.connect q.1 world with ⟨e | connection, between⟩
  · rfl
  · dsimp only
    rcases exchangeOn host connection q.2 between with ⟨_ | e | response, after⟩
    · rfl
    · rfl
    · simp [h]

end Tcp

/-! ## UDP -/

namespace SocketPool

theorem take_fst (p : SocketPool) (isV4 : Bool) : (p.take isV4).1 = (p.idle isV4).head? := by
  cases isV4 <;> rfl

theorem idle_take (p : SocketPool) (isV4 other : Bool) :
    (p.take isV4).2.idle other = (p.idle other).drop (if isV4 = other then 1 else 0) := by
  cases isV4 <;> cases other <;> simp [take, idle]

theorem eq_of_idle {p p' : SocketPool} (h : ∀ isV4, p.idle isV4 = p'.idle isV4) : p = p' := by
  cases p with
  | mk v4 v6 =>
      cases p' with
      | mk v4' v6' =>
          obtain rfl : v4 = v4' := h true
          obtain rfl : v6 = v6' := h false
          rfl

theorem take_of_idle_eq_nil {p : SocketPool} {isV4 : Bool} (h : p.idle isV4 = []) :
    p.take isV4 = (none, p) := by
  refine Prod.ext ?_ (eq_of_idle fun other => ?_)
  · rw [take_fst, h, List.head?_nil]
  · rw [idle_take]
    split
    · rename_i hsame
      rw [← hsame, h, List.drop_nil]
    · exact List.drop_zero

end SocketPool

namespace Udp

variable {σ : Type} {host : UdpHost σ} {config : UdpConfig} {q : ServerQuery}

def query (host : UdpHost σ) (config : UdpConfig) (q : ServerQuery) :
    SocketPool × σ → Option (Except ClientError Octets) × SocketPool × σ
  | (pool, world) =>
    let x := exchange host config q.1 q.2 pool world
    (x.result, x.pool, x.world)

/-- A query on the socket that is given, or else on one that is bound for it. -/
def queryOn (host : UdpHost σ) (config : UdpConfig) (q : ServerQuery) (world : σ) :
    Option UdpSocket → Option (Except ClientError Octets) × σ
  | some socket =>
    let x := exchangeOn host config q.1 q.2 socket .empty world
    (x.result, x.world)
  | none =>
    match bind host q.1.isV4 world bindRetries with
    | (.error e, world) => (some (.error e), world)
    | (.ok socket, world) =>
      let x := exchangeOn host config q.1 q.2 socket .empty world
      (x.result, x.world)

def queryOnOwn (host : UdpHost σ) (config : UdpConfig) (q : ServerQuery) (world : σ) :
    Option (Except ClientError Octets) × σ :=
  queryOn host config q world none

theorem exchangeOn_of_unpooled (h : config.poolSockets = false) (socket : UdpSocket)
    (pool pool' : SocketPool) (world : σ) :
    let x := exchangeOn host config q.1 q.2 socket pool' world
    exchangeOn host config q.1 q.2 socket pool world = ⟨x.result, pool, x.world⟩ := by
  dsimp only
  unfold exchangeOn
  rcases host.send socket q.1 q.2 world with ⟨e | sent, between⟩
  · rfl
  · dsimp only
    split
    · rfl
    · rcases firstFrom q.1 (bufferSize config q.2) 0 (host.arrivals socket between) with
        _ | ⟨e | octets, taken⟩
      · rfl
      · rfl
      · dsimp only
        rcases checkResponse q.2 octets with e | response
        · rfl
        · simp [h]

theorem query_of_unpooled (h : config.poolSockets = false) (pool : SocketPool) (world : σ) :
    query host config q (pool, world) =
      let x := queryOn host config q world (pool.idle q.1.isV4).head?
      (x.1, (pool.take q.1.isV4).2, x.2) := by
  dsimp only [query]
  rw [← SocketPool.take_fst]
  unfold exchange
  rcases pool.take q.1.isV4 with ⟨_ | socket, rest⟩
  · dsimp only [queryOn]
    rcases bind host q.1.isV4 world bindRetries with ⟨e | socket, after⟩
    · rfl
    · dsimp only
      rw [exchangeOn_of_unpooled h socket rest .empty]
  · dsimp only [queryOn]
    rw [exchangeOn_of_unpooled h socket rest .empty]

theorem query_of_idle_eq_nil (h : config.poolSockets = false) {pool : SocketPool}
    (hidle : pool.idle q.1.isV4 = []) (world : σ) :
    query host config q (pool, world) =
      ((queryOnOwn host config q world).1, pool, (queryOnOwn host config q world).2) := by
  rw [query_of_unpooled h, hidle, SocketPool.take_of_idle_eq_nil hidle]
  rfl

theorem idle_inTurn (host : UdpHost σ) (h : config.poolSockets = false)
    (queries : List ServerQuery) (isV4 : Bool) (pool : SocketPool) (world : σ) :
    (inTurn (query host config) queries (pool, world)).2.1.idle isV4 =
      (pool.idle isV4).drop (queries.countP fun q => q.1.isV4 = isV4) := by
  induction queries generalizing pool world with
  | nil => exact List.drop_zero.symm
  | cons q queries ih =>
      dsimp only [inTurn]
      rw [query_of_unpooled h, ih, SocketPool.idle_take, List.drop_drop, List.countP_cons,
        Nat.add_comm]
      simp only [decide_eq_true_eq]

end Udp

/-- Without pooling, queries over TCP go as they would without pools, which they
leave as they were. Queries over UDP leave of each address family the idle sockets
below as many as there were queries over it. They go as they would without a pool,
and leave the pool as it was, exactly if no socket is idle for any of their
servers. -/
theorem queries_without_pooling {σ τ : Type} (tcp : TcpHost σ) (udp : UdpHost τ)
    (maxLifetime : Duration) (receiveSize : Nat) (queries : List ServerQuery)
    (pools : ConnectionPools) (pool : SocketPool) (streams : σ) (datagrams : τ) :
    let tcpRun := inTurn (Tcp.query tcp ⟨false, maxLifetime⟩) queries (pools, streams)
    let tcpOwn := inTurn (Tcp.queryOnOwn tcp) queries streams
    let udpRun := inTurn (Udp.query udp ⟨false, receiveSize⟩) queries (pool, datagrams)
    let udpOwn := inTurn (Udp.queryOnOwn udp ⟨false, receiveSize⟩) queries datagrams
    tcpRun = (tcpOwn.1, pools, tcpOwn.2) ∧
    (∀ isV4, udpRun.2.1.idle isV4 =
      (pool.idle isV4).drop (queries.countP fun q => q.1.isV4 = isV4)) ∧
    (udpRun = (udpOwn.1, pool, udpOwn.2) ↔ ∀ q ∈ queries, pool.idle q.1.isV4 = []) := by
  intro tcpRun tcpOwn udpRun udpOwn
  have hunpooled : (⟨false, receiveSize⟩ : UdpConfig).poolSockets = false := rfl
  have hleft (isV4 : Bool) := Udp.idle_inTurn udp hunpooled queries isV4 pool datagrams
  refine ⟨?_, hleft, ?_, ?_⟩
  · exact inTurn_of_frame (fun q _ => Tcp.query_of_unpooled rfl q pools) streams
  · intro hframe q hq
    have hdrop : pool.idle q.1.isV4 = (pool.idle q.1.isV4).drop
        (queries.countP fun other => other.1.isV4 = q.1.isV4) := by
      rw [← hleft, show (inTurn _ queries (pool, datagrams)).2.1 = pool from
        congrArg (fun run => run.2.1) hframe]
    have hcount : 0 < queries.countP fun other => other.1.isV4 = q.1.isV4 :=
      List.countP_pos_iff.2 ⟨q, hq, decide_eq_true rfl⟩
    have hlength := congrArg List.length hdrop
    rw [List.length_drop] at hlength
    exact List.eq_nil_of_length_eq_zero (by omega)
  · intro hidle
    exact inTurn_of_frame (fun q hq => Udp.query_of_idle_eq_nil hunpooled (hidle q hq)) datagrams

/-- The idle socket 7 is used and not returned, although the query could have bound
socket 8. The host notes the sockets that are sent on. -/
theorem Udp.query_drains_pool :
    let server : SocketAddress := .v4 ⟨#v[192, 0, 2, 1]⟩ 53
    let message : Octets := Array.replicate 12 0
    let host : UdpHost (List Nat) :=
      { bind := fun isV4 sent => (.ok ⟨8, isV4⟩, sent)
        send := fun socket _ octets sent => (.ok octets.size, socket.id :: sent)
        arrivals := fun _ _ => [.ok ⟨server, message⟩]
        consume := fun _ _ sent => sent }
    let config : UdpConfig := ⟨false, 512⟩
    let pool : SocketPool := ⟨[⟨7, true⟩], []⟩
    inTurn (query host config) [(server, message)] (pool, []) =
      ([some (.ok message)], .empty, [7]) ∧
    inTurn (queryOnOwn host config) [(server, message)] [] = ([some (.ok message)], [8]) := by
  exact ⟨rfl, rfl⟩

end StubResolver
