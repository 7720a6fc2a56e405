import StubResolver.Proofs.Transport.Checking
import StubResolver.Proofs.Transport.Pools

/-!
# Exchanges over UDP

An exchange waits for a datagram from its server and takes no other for it. Its
buffer has room for what the request says that there is room for, in the OPT record
that the request ends in.
-/

namespace StubResolver

open Name

namespace Udp

/-! ## What a request advertises -/

theorem advertisedSize?_of_standsAt {m : Octets} {start : Nat} {o : Opt}
    (hsize : m.size = start + optLength) (hstart : headerLength ≤ start)
    (hcount : StandsAt m 10 [0, 1]) (hoptions : o.options = []) (hopt : StandsAt m start o.octets) :
    advertisedSize? m = some o.payloadSize.toNat := by
  have hcount' : (m.extract 10 12).toList = [0, 1] :=
    (standsAt_iff_extract rfl (hcount.length_le (List.cons_ne_nil _ _))).1 hcount
  have hannounced : m.extract 10 12 ≠ #[0, 0] := by
    intro h
    rw [h] at hcount'
    cases hcount'
  let ttl := o.header.ttl.toUInt32
  have hoctets : o.octets =
      [(0 : UInt8), 0, 41, (o.payloadSize >>> 8).toUInt8, o.payloadSize.toUInt8,
        (ttl >>> 24).toUInt8, (ttl >>> 16).toUInt8, (ttl >>> 8).toUInt8, ttl.toUInt8, 0, 0] := by
    have htype : Wire.octets16 o.header.type.code = [0, 41] := show Wire.octets16 41 = _ by decide
    have hnone : Wire.octets16 o.header.dataLength = [0, 0] := by
      change Wire.octets16 o.options.length.toUInt16 = _
      rw [hoptions]
      decide
    rw [Opt.octets, RecordHeader.fixedOctets, htype, hnone, hoptions]
    rfl
  have hlast : (m.extract (m.size - optLength) m.size).toList = o.octets := by
    have hlength : o.octets.length = optLength := congrArg List.length hoctets
    rw [hsize, Nat.add_sub_cancel]
    exact (standsAt_iff_extract hlength hsize.ge).1 hopt
  rw [advertisedSize?, if_neg (by rw [hsize]; exact Nat.not_lt.2 (Nat.add_le_add_right hstart _)),
    if_neg hannounced, hlast, hoctets]
  have hjoin : Wire.join16 (o.payloadSize >>> 8).toUInt8 o.payloadSize.toUInt8 = o.payloadSize :=
    Wire.octets16_injective (Wire.octets16_join16 _ _)
  exact congrArg (fun size : UInt16 => some size.toNat) hjoin

/-- The scan from the end finds the OPT record of every request. -/
theorem advertisedSize?_octets {r : Request} (hoptions : r.opt.options = []) :
    advertisedSize? r.octets.toArray = some r.opt.payloadSize.toNat := by
  have hstands : StandsAt r.octets.toArray 0 r.octets := List.prefix_rfl
  obtain ⟨-, hstands⟩ := standsAt_append_iff.1 hstands
  obtain ⟨hcounts, hstands⟩ := standsAt_append_iff.1 hstands
  obtain ⟨-, hopt⟩ := standsAt_append_iff.1 hstands
  -- the last two octets of the counts announce one additional record
  have hsplit : Request.counts.octets = [0, 1, 0, 0, 0, 0] ++ [0, 1] := rfl
  rw [hsplit, standsAt_append_iff] at hcounts
  have hlength : r.opt.octets.length = optLength := by
    rw [Opt.length_octets, hoptions]
    rfl
  have hstart : 0 + r.header.octets.length + Request.counts.octets.length = 12 := rfl
  rw [hstart] at hopt
  refine advertisedSize?_of_standsAt ?_ (Nat.le_add_right 12 _) hcounts.2 hoptions hopt
  rw [← hlength, ← hstart]
  simp [Request.octets, Nat.add_assoc]

/-! ## Datagrams from elsewhere -/

section

variable {server : SocketAddress} {buffer taken : Nat} {strays : List Datagram}

theorem firstFrom_strays (hstrays : ∀ s ∈ strays, s.source ≠ server) :
    firstFrom server buffer taken (strays.map .ok) = none := by
  induction strays generalizing taken with
  | nil => rfl
  | cons s strays ih =>
      obtain ⟨hs, hstrays⟩ := List.forall_mem_cons.1 hstrays
      rw [List.map_cons, firstFrom, if_neg hs, ih hstrays]

theorem firstFrom_behind_strays (hstrays : ∀ s ∈ strays, s.source ≠ server) {d : Datagram}
    (hd : d.source = server) (later : List (Except String Datagram)) :
    firstFrom server buffer taken (strays.map .ok ++ .ok d :: later) =
      some (.ok (d.octets.extract 0 buffer), taken + strays.length + 1) := by
  induction strays generalizing taken with
  | nil => rw [List.map_nil, List.nil_append, firstFrom, if_pos hd, List.length_nil, Nat.add_zero]
  | cons s strays ih =>
      obtain ⟨hs, hstrays⟩ := List.forall_mem_cons.1 hstrays
      rw [List.map_cons, List.cons_append, firstFrom, if_neg hs, ih hstrays, List.length_cons,
        Nat.add_assoc taken, Nat.add_comm 1]

end

/-! ## What the buffer keeps -/

section

variable {octets : Octets} {buffer : Nat}

theorem le_size_cut_iff {n : Nat} (h : n ≤ buffer) :
    n ≤ (octets.extract 0 buffer).size ↔ n ≤ octets.size := by
  rw [Array.size_extract, Nat.sub_zero, Nat.le_min, and_iff_right h]

theorem standsAt_cut_iff {os : List UInt8} (h : os.length ≤ buffer) :
    StandsAt (octets.extract 0 buffer) 0 os ↔ StandsAt octets 0 os := by
  unfold StandsAt
  rw [Array.toList_extract, List.extract_eq_take_drop, List.drop_zero, List.drop_zero,
    List.prefix_take_iff, Nat.sub_zero, and_iff_left h]

end

theorem lowest_receiveSize (n : Nat) :
    512 ≤ (UdpConfig.default.setReceiveSize n).receiveSize := Nat.le_max_left _ _

theorem receiveSize_le_bufferSize (config : UdpConfig) (request : Octets) :
    config.receiveSize ≤ bufferSize config request := by
  unfold bufferSize
  split
  · exact Nat.le_max_right _ _
  · exact Nat.le_refl _

theorem advertised_le_bufferSize {config : UdpConfig} {request : Octets} {size : Nat}
    (h : advertisedSize? request = some size) : size ≤ bufferSize config request := by
  rw [bufferSize, h]
  exact Nat.le_max_left _ _

/-! ## Whole exchanges -/

/-- How an exchange comes by its socket, with the pool and the host then: one that is
idle, or one that is bound where none is. -/
inductive Acquires {σ : Type} (host : UdpHost σ) (server : SocketAddress) (pool : SocketPool)
    (world : σ) : UdpSocket → SocketPool → σ → Prop where
  | idle {socket : UdpSocket} {rest : SocketPool}
      (taken : pool.take server.isV4 = (some socket, rest)) :
      Acquires host server pool world socket rest world
  | bound {socket : UdpSocket} {rest : SocketPool} {between : σ}
      (none : pool.take server.isV4 = (none, rest))
      (bound : bind host server.isV4 world bindRetries = (.ok socket, between)) :
      Acquires host server pool world socket rest between

variable {σ : Type} {host : UdpHost σ} {config : UdpConfig} {server : SocketAddress}
  {request : Octets} {socket : UdpSocket} {pool rest : SocketPool} {world between after : σ}

theorem Acquires.exchange_eq (h : Acquires host server pool world socket rest between) :
    exchange host config server request pool world =
      exchangeOn host config server request socket rest between := by
  unfold exchange
  cases h with
  | idle taken => rw [taken]
  | bound none bound =>
      rw [none]
      dsimp only
      rw [bound]

theorem exchangeOn_pool (hpool : config.poolSockets = true) :
    let x := exchangeOn host config server request socket rest between
    (∃ response, x.result = some (.ok response)) ∧ x.pool = rest.put socket ∨
      (∀ response, x.result ≠ some (.ok response)) ∧ x.pool = rest := by
  intro x
  rcases exchangeOn_ends host config server request socket rest between with
    ⟨response, hresult, hput⟩ | ⟨hfailed, hkept⟩
  · rw [if_pos hpool] at hput
    exact .inl ⟨⟨response, hresult⟩, hput⟩
  · refine .inr ⟨fun response hresult => ?_, hkept⟩
    rcases hfailed with hnone | ⟨e, herror⟩
    · cases hnone.symm.trans hresult
    · cases herror.symm.trans hresult

theorem exchangeOn_of_strays {strays : List Datagram}
    (hsend : host.send socket server request between = (.ok request.size, after))
    (harrivals : host.arrivals socket after = strays.map .ok)
    (hstrays : ∀ s ∈ strays, s.source ≠ server) :
    exchangeOn host config server request socket rest between = ⟨none, rest, after⟩ := by
  simp [exchangeOn, hsend, harrivals, firstFrom_strays hstrays]

theorem exchangeOn_of_datagram {strays : List Datagram} {d : Datagram}
    {later : List (Except String Datagram)}
    (hsend : host.send socket server request between = (.ok request.size, after))
    (harrivals : host.arrivals socket after = strays.map .ok ++ .ok d :: later)
    (hstrays : ∀ s ∈ strays, s.source ≠ server) (hd : d.source = server) :
    let x := exchangeOn host config server request socket rest between
    x.result = some (checkResponse request (d.octets.extract 0 (bufferSize config request))) ∧
      x.world = host.consume socket (strays.length + 1) after := by
  dsimp only
  simp only [exchangeOn, hsend, harrivals, firstFrom_behind_strays hstrays hd, ne_eq,
    not_true_eq_false, if_false, Nat.zero_add]
  cases checkResponse request (d.octets.extract 0 (bufferSize config request)) with
  | error e => exact ⟨rfl, rfl⟩
  | ok response => exact ⟨rfl, rfl⟩

/-- A request is exchanged over UDP, on a socket that it can be sent on. Its payload
size is found in it, and the buffer has room for that many octets at least. Datagrams
from elsewhere are ignored, and the first one from the server ends the exchange. As
far as it goes into the buffer it is the response, if it has twelve octets and begins
with the ID of the request, and the error says which of the two is missing; none that
is as long as advertised, or shorter, is cut. The socket goes into the pool after a
response, and not otherwise. -/
theorem exchange_ends_with_server {question : Question} {header : Header}
    {recursionDesired dnssecOk : Bool} {payloadSize : UInt16} {datagrams : List Datagram}
    (hrequest :
      ({ (Request.ofQuestion question recursionDesired payloadSize).setDnssecOk dnssecOk with
        header } : Request).toOctets = .ok request)
    (hsocket : Acquires host server pool world socket rest between)
    (hsend : host.send socket server request between = (.ok request.size, after))
    (harrivals : host.arrivals socket after = datagrams.map .ok) (receiveSize : Nat) :
    let config := UdpConfig.default.setReceiveSize receiveSize
    let buffer := bufferSize config request
    let x := exchange host config server request pool world
    advertisedSize? request = some payloadSize.toNat ∧ payloadSize.toNat ≤ buffer ∧
    ((∀ d ∈ datagrams, d.source ≠ server) → x.result = none) ∧
    (∀ strays d later, datagrams = strays ++ d :: later → (∀ s ∈ strays, s.source ≠ server) →
      d.source = server →
      let cut := d.octets.extract 0 buffer
      x.world = host.consume socket (strays.length + 1) after ∧
      (∀ response, x.result = some (.ok response) ↔
        response = cut ∧ 12 ≤ d.octets.size ∧ StandsAt d.octets 0 (Wire.octets16 header.id)) ∧
      (x.result = some (.error .shortMessage) ↔ d.octets.size < 12) ∧
      (∀ expected received, x.result = some (.error (.idMismatch expected received)) ↔
        expected = header.id ∧ received ≠ header.id ∧ 12 ≤ d.octets.size ∧
          StandsAt d.octets 0 (Wire.octets16 received)) ∧
      (d.octets.size ≤ payloadSize.toNat → cut = d.octets)) ∧
    ((∃ response, x.result = some (.ok response)) ∧ x.pool = rest.put socket ∨
      (∀ response, x.result ≠ some (.ok response)) ∧ x.pool = rest) := by
  intro config buffer x
  let r : Request :=
    { (Request.ofQuestion question recursionDesired payloadSize).setDnssecOk dnssecOk with header }
  obtain rfl : request = r.octets.toArray := Request.eq_octets_of_toOctets rfl hrequest
  have hid : messageId? r.octets.toArray = some header.id := r.messageId?_octets
  have hadvertised : advertisedSize? r.octets.toArray = some payloadSize.toNat :=
    advertisedSize?_octets rfl
  have hpayload : payloadSize.toNat ≤ buffer := advertised_le_bufferSize hadvertised
  have hbuffer : 512 ≤ buffer :=
    (lowest_receiveSize receiveSize).trans (receiveSize_le_bufferSize _ _)
  have hx : x = exchangeOn host config server r.octets.toArray socket rest between :=
    hsocket.exchange_eq
  refine ⟨hadvertised, hpayload, fun hstrays => ?_, ?_, hx ▸ exchangeOn_pool rfl⟩
  · rw [hx, exchangeOn_of_strays hsend harrivals hstrays]
  rintro strays d later rfl hstrays hd cut
  rw [List.map_append, List.map_cons] at harrivals
  have hends : x.result = some (checkResponse r.octets.toArray cut) ∧
      x.world = host.consume socket (strays.length + 1) after := by
    rw [hx]
    exact exchangeOn_of_datagram hsend harrivals hstrays hd
  have hsize : headerLength ≤ cut.size ↔ 12 ≤ d.octets.size :=
    le_size_cut_iff ((by decide : 12 ≤ 512).trans hbuffer)
  have hstarts (id : UInt16) :
      messageId? cut = some id ↔ StandsAt d.octets 0 (Wire.octets16 id) := by
    rw [messageId?_eq_some_iff, standsAt_cut_iff ((by decide : 2 ≤ 512).trans hbuffer)]
  refine ⟨hends.2, fun response => ?_, ?_, fun expected received => ?_, fun hfits => ?_⟩
  · rw [hends.1, Option.some.injEq, checkResponse_eq_ok_iff hid, hsize, hstarts]
  · rw [hends.1, Option.some.injEq, checkResponse_eq_shortMessage_iff hid, ← Nat.not_le, hsize,
      Nat.not_le]
  · rw [hends.1, Option.some.injEq, checkResponse_eq_idMismatch_iff hid, hsize, hstarts]
  · exact Array.extract_eq_self_of_le (hfits.trans hpayload)

/-- The right ID comes from another port first. What the server sends is longer than
the receive size, but not than advertised. The host counts the datagrams that are
taken. -/
theorem exchange_past_stray :
    let server : SocketAddress := .v4 ⟨#v[192, 0, 2, 1]⟩ 53
    let response : Octets := #[0xAB, 0xCD] ++ Array.replicate 598 0
    let datagrams : List Datagram := [⟨.v4 ⟨#v[192, 0, 2, 1]⟩ 54, response⟩, ⟨server, response⟩]
    let host : UdpHost Nat :=
      { bind := fun isV4 taken => (.ok ⟨8, isV4⟩, taken)
        send := fun _ _ octets taken => (.ok octets.size, taken)
        arrivals := fun _ taken => (datagrams.drop taken).map .ok
        consume := fun _ count taken => taken + count }
    let request : Request :=
      { (Request.ofQuestion ⟨.root, .a, .internet⟩ true 1232).setDnssecOk true with
        header := ⟨0xABCD, 0x0100⟩ }
    ∃ octets : Octets, request.toOctets = .ok octets ∧
      Acquires host server .empty 0 ⟨8, true⟩ .empty 0 ∧
      host.send ⟨8, true⟩ server octets 0 = (.ok octets.size, 0) ∧
      host.arrivals ⟨8, true⟩ 0 = datagrams.map .ok ∧
      let x := exchange host (UdpConfig.default.setReceiveSize 512) server octets .empty 0
      x.result = some (.ok response) ∧ x.pool = ⟨[⟨8, true⟩], []⟩ ∧ x.world = 2 := by
  intro server response datagrams host request
  have hrequest : request.toOctets = .ok request.octets.toArray :=
    Request.toOctets_eq_ok (by decide) rfl (by decide) (by decide)
  have hsocket : Acquires host server .empty 0 ⟨8, true⟩ .empty 0 := .bound rfl rfl
  have hsend : host.send ⟨8, true⟩ server request.octets.toArray 0 =
      (.ok request.octets.toArray.size, 0) := rfl
  have harrivals : host.arrivals ⟨8, true⟩ 0 = datagrams.map .ok := rfl
  have hsize : response.size = 600 := by simp [response]
  have hstarts : StandsAt response 0 (Wire.octets16 0xABCD) := by
    have hid : Wire.octets16 0xABCD = [0xAB, 0xCD] := by decide
    rw [StandsAt, List.drop_zero, Array.toList_append, hid]
    exact List.prefix_append _ _
  obtain ⟨-, -, -, hends, hpool⟩ := exchange_ends_with_server hrequest hsocket hsend harrivals 512
  obtain ⟨hworld, hok, -, -, hcut⟩ :=
    hends [⟨.v4 ⟨#v[192, 0, 2, 1]⟩ 54, response⟩] ⟨server, response⟩ [] rfl (by decide) rfl
  have hwhole := hcut (hsize.trans_le (by decide))
  have hresult := (hok response).2 ⟨hwhole.symm, hsize.ge.trans' (by decide), hstarts⟩
  rcases hpool with ⟨-, hpool⟩ | ⟨hfailed, -⟩
  · exact ⟨_, hrequest, hsocket, hsend, harrivals, hresult, hpool, hworld⟩
  · exact (hfailed _ hresult).elim

end Udp

end StubResolver
