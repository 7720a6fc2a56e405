import StubResolver.Proofs.Transport.Traffic

/-!
# The pools of UDP and TCP under many queries

Both transports share their idle sockets in the way that `Pooling` says: UDP by
address family, and TCP by server. A query that is alone from its start to its end
takes the same steps.
-/

namespace StubResolver

/-! ## Taking sockets one at a time -/

def Udp.pooling : Pooling SocketPool Bool UdpSocket where
  empty := .empty
  idle := SocketPool.idle
  take := SocketPool.take
  put pool _ socket := pool.put socket
  fits isV4 socket := socket.isV4 = isV4
  goesOn := false
  idle_empty isV4 := by cases isV4 <;> rfl
  idle_take pool isV4 := (pool.take_spec isV4).1.of_all_usable
  idle_take_none pool isV4 hnone := by
    have htaken := (pool.take_spec isV4).1
    rw [htaken.of_all_usable, htaken.emptied hnone, hnone]
    rfl
  idle_take_of_ne pool isV4 := (pool.take_spec isV4).2
  idle_put pool _ socket hfits := hfits ▸ (pool.idle_put socket).1
  idle_put_of_ne pool _ other socket hfits hother :=
    (pool.idle_put socket).2 other fun h => hother (h.trans hfits)

/-- A query gives up a connection that cannot be
used again like one on which it has failed. -/
def Tcp.pooling : Pooling ConnectionPools SocketAddress TcpConnection where
  empty := .empty
  idle := ConnectionPools.idle
  take pools server := pools.takeUsable server fun _ => true
  put := ConnectionPools.push
  fits _ _ := True
  goesOn := true
  idle_empty _ := rfl
  idle_take pools server := (pools.takeUsable_spec server _).1.of_all_usable
  idle_take_none pools server hnone := by
    have htaken := (pools.takeUsable_spec server fun _ => true).1
    rw [htaken.of_all_usable, htaken.emptied hnone, hnone]
    rfl
  idle_take_of_ne pools server := (pools.takeUsable_spec server _).2
  idle_put pools server socket _ := (pools.idle_push server socket).1
  idle_put_of_ne pools server other socket _ := (pools.idle_push server socket).2 other

namespace Traffic

/-! ## A query alone -/

section

variable {π κ ι : Type} {P : Pooling π κ ι} {s s' : Traffic π κ ι} {flights : List (Flight κ ι)}
  {row : κ} {socket : ι} {stage : Stage ι} {result : Option (Except ClientError Octets)} {pool : π}

inductive Leaves (flights : List (Flight κ ι)) : Option (Except ClientError Octets) →
    List (TrafficEvent κ ι × Traffic π κ ι) → List (Flight κ ι) → Prop where
  | waits (history : List (TrafficEvent κ ι × Traffic π κ ι)) (flight : Flight κ ι) :
      Leaves flights none history (flights ++ [flight])
  | answered (response : Octets) (row : κ) (socket : ι) (s : Traffic π κ ι)
      (history : List (TrafficEvent κ ι × Traffic π κ ι)) :
      Leaves flights (some (.ok response)) ((.answered row socket, s) :: history) flights
  | failed (e : ClientError) (row : κ) (stage : Stage ι) (s : Traffic π κ ι)
      (history : List (TrafficEvent κ ι × Traffic π κ ι)) :
      Leaves flights (some (.error e)) ((.ended .failed row stage, s) :: history) flights

/-- With steps of one query, this is its result, and what it leaves in the pool. -/
def EndsAlone (P : Pooling π κ ι) (s : Traffic π κ ι) (flights : List (Flight κ ι))
    (result : Option (Except ClientError Octets)) (pool : π) : Prop :=
  ∃ history s', Run P s history s' ∧ s'.pool = pool ∧ Leaves flights result history s'.flights

theorem Leaves.after {later : List (TrafficEvent κ ι × Traffic π κ ι)}
    {flights' : List (Flight κ ι)} (h : Leaves flights result later flights')
    (history : List (TrafficEvent κ ι × Traffic π κ ι)) :
    Leaves flights result (later ++ history) flights' := by
  cases h with
  | waits => exact .waits _ _
  | answered => exact .answered _ _ _ _ _
  | failed => exact .failed _ _ _ _ _

theorem EndsAlone.after {history : List (TrafficEvent κ ι × Traffic π κ ι)}
    (h : EndsAlone P s' flights result pool) (hrun : Run P s history s') :
    EndsAlone P s flights result pool := by
  obtain ⟨later, s'', hlater, hpool, hleaves⟩ := h
  exact ⟨later ++ history, s'', hrun.append hlater, hpool, hleaves.after history⟩

theorem endsAlone_waiting (flight : Flight κ ι) (opened : List ι) :
    EndsAlone P ⟨pool, flights ++ [flight], opened⟩ flights none pool :=
  ⟨[], _, .nil, rfl, .waits [] flight⟩

theorem endsAlone_answered (response : Octets) (reused : Bool) (opened : List ι) :
    EndsAlone P ⟨pool, flights ++ [⟨row, .sending socket reused⟩], opened⟩ flights
      (some (.ok response)) (P.put pool row socket) := by
  have hstep : Step P ⟨pool, flights ++ [⟨row, .sending socket reused⟩], opened⟩
      (.answered row socket) ⟨P.put pool row socket, flights ++ [], opened⟩ :=
    .answer flights [] rfl
  rw [List.append_nil] at hstep
  exact ⟨_, _, Run.nil.step hstep, rfl, .answered response row socket _ []⟩

theorem endsAlone_failed (e : ClientError) (opened : List ι)
    (final : P.goesOn = true → stage.isReused = false) :
    EndsAlone P ⟨pool, flights ++ [⟨row, stage⟩], opened⟩ flights (some (.error e)) pool := by
  have hstep : Step P ⟨pool, flights ++ [⟨row, stage⟩], opened⟩ (.ended .failed row stage)
      ⟨pool, flights ++ [], opened⟩ :=
    .giveUp .failed flights [] rfl fun _ => final
  rw [List.append_nil] at hstep
  exact ⟨_, _, Run.nil.step hstep, rfl, .failed e row stage _ []⟩

theorem run_opens (pool : π) (flights : List (Flight κ ι)) {opened : List ι}
    (fits : P.fits row socket) (new : socket ∉ opened) :
    ∃ history, Run P ⟨pool, flights ++ [⟨row, .opening⟩], opened⟩ history
      ⟨pool, flights ++ [⟨row, .sending socket false⟩], socket :: opened⟩ :=
  ⟨_, Run.nil.step (.opens flights [] rfl fits new)⟩

end

end Traffic

/-! ### UDP -/

namespace Udp

open Traffic

variable {σ : Type} {host : UdpHost σ} {config : UdpConfig} {server : SocketAddress}
  {request : Octets}

theorem endsAlone_exchangeOn (hpool : config.poolSockets = true) (socket : UdpSocket)
    (reused : Bool) (flights : List (Flight Bool UdpSocket)) (opened : List UdpSocket)
    (pool : SocketPool) (world : σ) :
    let x := exchangeOn host config server request socket pool world
    EndsAlone pooling ⟨pool, flights ++ [⟨server.isV4, .sending socket reused⟩], opened⟩ flights
      x.result x.pool := by
  dsimp only
  rcases exchangeOn_ends host config server request socket pool world with
    ⟨response, hresult, hput⟩ | ⟨hresult | ⟨e, hresult⟩, hkept⟩
  · rw [if_pos hpool] at hput
    rw [hresult, hput]
    exact endsAlone_answered response reused opened
  · rw [hresult, hkept]
    exact endsAlone_waiting _ opened
  · rw [hresult, hkept]
    exact endsAlone_failed e opened nofun

theorem bind_spec {fits : UdpSocket → Prop} {isV4 : Bool}
    (h : ∀ world socket after, host.bind isV4 world = (.ok socket, after) → fits socket)
    {world after : σ} {retries : Nat} {socket : UdpSocket}
    (hbind : bind host isV4 world retries = (.ok socket, after)) : fits socket := by
  induction retries generalizing world with
  | zero =>
      unfold bind at hbind
      split at hbind <;> cases hbind
      exact h _ _ _ ‹_›
  | succ retries ih =>
      unfold bind at hbind
      split at hbind
      · cases hbind
        exact h _ _ _ ‹_›
      · exact ih hbind

theorem exchange_endsAlone (hpool : config.poolSockets = true)
    (s : Traffic SocketPool Bool UdpSocket) (world : σ)
    (hnew : ∀ world socket after, host.bind server.isV4 world = (.ok socket, after) →
      socket.isV4 = server.isV4 ∧ socket ∉ s.opened) :
    let x := exchange host config server request s.pool world
    EndsAlone pooling s s.flights x.result x.pool := by
  refine EndsAlone.after ?_ (Run.nil.step (.start s server.isV4))
  unfold exchange
  rcases htaken : s.pool.take server.isV4 with ⟨_ | socket, pool⟩
  · rw [taking_of_take (P := pooling) htaken]
    dsimp only [Stage.ofTaken]
    rcases hbind : bind host server.isV4 world bindRetries with ⟨e | socket, after⟩
    · exact endsAlone_failed e s.opened nofun
    · obtain ⟨hfits, hnew⟩ := bind_spec hnew hbind
      obtain ⟨history, hopens⟩ := run_opens (P := pooling) pool s.flights hfits hnew
      exact (endsAlone_exchangeOn hpool socket false s.flights _ pool after).after hopens
  · rw [taking_of_take (P := pooling) htaken]
    exact endsAlone_exchangeOn hpool socket true s.flights s.opened pool world

end Udp

/-! ### TCP -/

namespace Tcp

open Traffic

variable {σ : Type} {host : TcpHost σ} {config : TcpConfig} {server : SocketAddress}
  {request : Octets} {flights : List (Flight SocketAddress TcpConnection)}

theorem run_takeUsable (server : SocketAddress) (usable : TcpConnection → Bool)
    (flights : List (Flight SocketAddress TcpConnection))
    (s : Traffic ConnectionPools SocketAddress TcpConnection) :
    let taken := s.pool.takeUsable server usable
    ∃ history, Run pooling (s.taking pooling server flights []) history
      ⟨taken.2, flights ++ [⟨server, .ofTaken taken.1⟩], s.opened⟩ := by
  generalize hidle : s.pool.idle server = idle
  induction idle generalizing s with
  | nil =>
      have htaken : ∀ usable,
          s.pool.takeUsable server usable = (none, s.pool.setIdle server []) := by
        intro usable
        unfold ConnectionPools.takeUsable
        rw [hidle]
        rfl
      rw [taking_of_take (P := pooling) (htaken _), htaken]
      exact ⟨[], .nil⟩
  | cons c below ih =>
      have htaken : ∀ usable : TcpConnection → Bool, usable c = true →
          s.pool.takeUsable server usable = (some c, s.pool.setIdle server below) := by
        intro usable husable
        unfold ConnectionPools.takeUsable
        rw [hidle, List.dropWhile_cons_of_neg (by simp [husable])]
      rw [taking_of_take (P := pooling) (htaken _ rfl)]
      cases husable : usable c with
      | true =>
          rw [htaken usable husable]
          exact ⟨[], .nil⟩
      | false =>
          let next : Traffic ConnectionPools SocketAddress TcpConnection :=
            ⟨s.pool.setIdle server below, flights ++ [⟨server, .ofTaken (some c)⟩], s.opened⟩
          have hgoes : Step pooling next (.wentOn server c)
              (next.taking pooling server flights []) :=
            .goOn flights [] rfl rfl
          obtain ⟨history, hrest⟩ := ih next (ConnectionPools.idle_setIdle _ _ _)
          rw [ConnectionPools.takeUsable_of_stale hidle husable]
          exact ⟨_, (Run.nil.step hgoes).append hrest⟩

theorem run_takeIdle (flights : List (Flight SocketAddress TcpConnection))
    (hpool : config.poolConnections = true)
    {s : Traffic ConnectionPools SocketAddress TcpConnection} {pools rest : ConnectionPools}
    {world : σ} {taken : Option TcpConnection} (hpools : s.pool = pools)
    (htaken : takeIdle host config server pools world = (taken, rest)) :
    ∃ history, Run pooling (s.taking pooling server flights []) history
      ⟨rest, flights ++ [⟨server, .ofTaken taken⟩], s.opened⟩ := by
  obtain ⟨history, hrun⟩ := run_takeUsable server
    (fun c => host.isReusable config.maxLifetime c world) flights s
  unfold takeIdle at htaken
  rw [if_pos hpool] at htaken
  rw [hpools, htaken] at hrun
  exact ⟨history, hrun⟩

theorem endsAlone_exchangeFresh (hpool : config.poolConnections = true) (pools : ConnectionPools)
    (opened : List TcpConnection) (world : σ)
    (hnew : ∀ world c after, host.connect server world = (.ok c, after) → c ∉ opened) :
    let x := exchangeFresh host config server request pools world
    EndsAlone pooling ⟨pools, flights ++ [⟨server, .opening⟩], opened⟩ flights x.result
      x.pools := by
  unfold exchangeFresh
  rcases hconnect : host.connect server world with ⟨system | c, between⟩
  · exact endsAlone_failed _ opened fun _ => rfl
  · have hfits : pooling.fits server c := trivial
    obtain ⟨history, hopens⟩ := run_opens pools flights hfits (hnew _ _ _ hconnect)
    refine EndsAlone.after ?_ hopens
    dsimp only
    rcases exchangeOn host c request between with ⟨_ | e | response, after⟩
    · exact endsAlone_waiting _ _
    · exact endsAlone_failed e _ fun _ => rfl
    · dsimp only
      rw [if_pos hpool]
      exact endsAlone_answered response false _

theorem endsAlone_taking (hpool : config.poolConnections = true)
    (s : Traffic ConnectionPools SocketAddress TcpConnection) (pools : ConnectionPools) (world : σ)
    (hpools : s.pool = pools)
    (hnew : ∀ world c after, host.connect server world = (.ok c, after) → c ∉ s.opened) :
    let x := exchange host config server request pools world
    EndsAlone pooling (s.taking pooling server flights []) flights x.result x.pools := by
  -- Each further idle connection is taken where the query stood when it took the one before.
  fun_induction exchange host config server request pools world generalizing s with
  | case1 pools world rest htaken =>
      obtain ⟨history, hrun⟩ := run_takeIdle flights hpool hpools htaken
      exact (endsAlone_exchangeFresh hpool rest s.opened world hnew).after hrun
  | case2 pools world c rest htaken response after hsent =>
      obtain ⟨history, hrun⟩ := run_takeIdle flights hpool hpools htaken
      exact (endsAlone_answered response true s.opened).after hrun
  | case3 pools world c rest htaken e after hsent ih =>
      obtain ⟨history, hrun⟩ := run_takeIdle flights hpool hpools htaken
      have hgoes : Step pooling ⟨rest, flights ++ [⟨server, .ofTaken (some c)⟩], s.opened⟩
          (.wentOn server c) (taking ⟨rest, _, s.opened⟩ pooling server flights []) :=
        .goOn flights [] rfl rfl
      exact (ih ⟨rest, _, s.opened⟩ rfl hnew).after (hrun.step hgoes)
  | case4 pools world c rest htaken after hsent =>
      obtain ⟨history, hrun⟩ := run_takeIdle flights hpool hpools htaken
      exact (endsAlone_waiting _ s.opened).after hrun

theorem exchange_endsAlone (hpool : config.poolConnections = true)
    (s : Traffic ConnectionPools SocketAddress TcpConnection) (world : σ)
    (hnew : ∀ world c after, host.connect server world = (.ok c, after) → c ∉ s.opened) :
    let x := exchange host config server request s.pool world
    EndsAlone pooling s s.flights x.result x.pools :=
  (endsAlone_taking hpool s s.pool world rfl hnew).after (Run.nil.step (.start s server))

end Tcp

/-! ## Many queries -/

/-- However the steps of queries are interleaved, of an address family with UDP and
of a server with TCP there are never more sockets idle and queries under way than
there were queries under way at one time. No socket is used by two queries or idle
twice, or both; and one that a query has given up, on which it has failed, timed out
or was canceled, is neither idle nor used again. -/
theorem Traffic.pools_wellKept :
    (∀ history s, Run Udp.pooling (start Udp.pooling) history s →
      WellKept Udp.pooling history s) ∧
    ∀ history s, Run Tcp.pooling (start Tcp.pooling) history s →
      WellKept Tcp.pooling history s :=
  ⟨fun _ _ hrun => hrun.wellKept, fun _ _ hrun => hrun.wellKept⟩

/-- Two queries over UDP have a socket each. One is answered, and the other times
out, and so only the socket of the first is used by the third. A second query over
TCP fails on the connection that has answered the first. -/
theorem Traffic.pools_wellKept_of_lost :
    let socket (id : Nat) : UdpSocket := ⟨id, true⟩
    let s : Traffic SocketPool Bool UdpSocket :=
      ⟨.empty, [⟨true, .sending (socket 1) true⟩], [socket 2, socket 1]⟩
    let server : SocketAddress := .v4 ⟨#v[192, 0, 2, 1]⟩ 53
    let connection : TcpConnection := ⟨1, 0⟩
    (∃ history, history.filterMap (fun x => x.1.lost?) = [socket 2] ∧
      Run Udp.pooling (start Udp.pooling) history s ∧ WellKept Udp.pooling history s) ∧
    ∃ history s, history.filterMap (fun x => x.1.lost?) = [connection] ∧
      s.flights = [⟨server, .opening⟩] ∧
      Run Tcp.pooling (start Tcp.pooling) history s ∧ WellKept Tcp.pooling history s := by
  intro socket s server connection
  refine ⟨?_, ?_⟩
  · let opening : Flight Bool UdpSocket := ⟨true, .opening⟩
    let sending (id : Nat) : Flight Bool UdpSocket := ⟨true, .sending (socket id) false⟩
    have hone : Step Udp.pooling (start Udp.pooling) (.started true) ⟨.empty, [opening], []⟩ :=
      .start _ true
    have htwo : Step Udp.pooling ⟨.empty, [opening], []⟩ (.started true)
        ⟨.empty, [opening, opening], []⟩ := .start _ true
    have hopenOne : Step Udp.pooling ⟨.empty, [opening, opening], []⟩ (.opened true (socket 1))
        ⟨.empty, [sending 1, opening], [socket 1]⟩ := .opens [] [opening] rfl rfl nofun
    have hopenTwo : Step Udp.pooling ⟨.empty, [sending 1, opening], [socket 1]⟩
        (.opened true (socket 2)) ⟨.empty, [sending 1, sending 2], [socket 2, socket 1]⟩ :=
      .opens [sending 1] [] rfl rfl (by decide)
    have hanswer : Step Udp.pooling ⟨.empty, [sending 1, sending 2], [socket 2, socket 1]⟩
        (.answered true (socket 1)) ⟨⟨[socket 1], []⟩, [sending 2], [socket 2, socket 1]⟩ :=
      .answer [] [sending 2] rfl
    have hlate : Step Udp.pooling ⟨⟨[socket 1], []⟩, [sending 2], [socket 2, socket 1]⟩
        (.ended .timedOut true (.sending (socket 2) false))
        ⟨⟨[socket 1], []⟩, [], [socket 2, socket 1]⟩ := .giveUp .timedOut [] [] rfl nofun
    have hthree : Step Udp.pooling ⟨⟨[socket 1], []⟩, [], [socket 2, socket 1]⟩ (.started true)
        s := .start _ true
    have hrun := ((((((Run.nil.step hone).step htwo).step hopenOne).step hopenTwo).step
      hanswer).step hlate).step hthree
    exact ⟨_, rfl, hrun, pools_wellKept.1 _ _ hrun⟩
  · let pools := ConnectionPools.empty.setIdle server []
    let pooled := pools.setIdle server [connection]
    have hstart : Step Tcp.pooling (start Tcp.pooling) (.started server)
        ⟨pools, [⟨server, .opening⟩], []⟩ := .start _ server
    have hopens : Step Tcp.pooling ⟨pools, [⟨server, .opening⟩], []⟩ (.opened server connection)
        ⟨pools, [⟨server, .sending connection false⟩], [connection]⟩ :=
      .opens [] [] rfl trivial nofun
    have hanswer : Step Tcp.pooling ⟨pools, [⟨server, .sending connection false⟩], [connection]⟩
        (.answered server connection) ⟨pooled, [], [connection]⟩ := .answer [] [] rfl
    have hreuse : Step Tcp.pooling ⟨pooled, [], [connection]⟩ (.started server)
        ⟨pools, [⟨server, .sending connection true⟩], [connection]⟩ := .start _ server
    have hgoes : Step Tcp.pooling ⟨pools, [⟨server, .sending connection true⟩], [connection]⟩
        (.wentOn server connection) ⟨pools, [⟨server, .opening⟩], [connection]⟩ :=
      .goOn [] [] rfl rfl
    have hrun := ((((Run.nil.step hstart).step hopens).step hanswer).step hreuse).step hgoes
    exact ⟨_, _, rfl, rfl, hrun, pools_wellKept.2 _ _ hrun⟩

end StubResolver
