/-
# A handshake whose last packet is lost

The client is established as soon as it has the SYN-ACK; the server's child becomes so with the
client's ACK.  If that ACK is lost, the two disagree, and it is the child that counts: `check_retx`
sends its SYN-ACK again.  The packet is made to be answered, but only a client that still waits for
it answers.  One that is established takes it for a segment without bytes and without a FIN, of
which nothing is acknowledged (`synAck_unanswered`), and so the child waits on until it gives up or
the client has something to say.
-/
import Turmoil.Net.Pair
import Turmoil.Net.Stages

namespace Turmoil.Net

/-! ## 1. Disagreement -/

/-- The child at `x` is in its handshake, and the client on the other host is past it. -/
structure Pair.HalfOpen (p : Pair) (x : Side) (child : Fd) (c : Conn) (loc : SocketAddr)
    (client : Fd) : Prop where
  conn : (p.kernel x).conn? child = some c
  bound : c.loc? = some loc
  waits : c.tcb.state = .synReceived
  found : (p.kernel x.other).sockets.findConnection c.tcb.peer loc = some client
  established : ∃ t, (p.kernel x.other).tcb? client = some t ∧ t.state = .established

/-- The SYN-ACK that `emit_handshake` sends for a child. -/
def synAckPacket (loc : SocketAddr) (t : Tcb) : Packet :=
  ⟨loc.ip, t.peer.ip, 64, .tcp ⟨loc.port, t.peer.port, t.sndUna - 1, t.rcvNxt,
    { syn := true, ack := true }, defaultWindow, []⟩⟩

namespace Kernel

variable {k k' : Kernel} {child client : Fd}

/-- What `emit_handshake` queues for a child. -/
theorem emitHandshake_child {c : Conn} {loc : SocketAddr} (hc : k.conn? child = some c)
    (hloc : c.loc? = some loc) (hwaits : c.tcb.state = .synReceived) :
    k.emitHandshake child = .ok (k.pushOutbound (synAckPacket loc c.tcb)) := by
  obtain ⟨st, hst, ht, hb, -⟩ := conn?_eq_some.mp hc
  obtain ⟨key, hkey, rfl⟩ := Option.map_eq_some_iff.mp hloc
  have hend : boundEndpoint st = .ok ⟨key.localAddr, key.localPort⟩ := by
    rw [boundEndpoint, hb.trans hkey]
    rfl
  have hseg : c.tcb.handshakeSegment ⟨key.localAddr, key.localPort⟩
      = .ok ⟨key.localPort, c.tcb.peer.port, c.tcb.sndUna - 1, c.tcb.rcvNxt,
        { syn := true, ack := true }, defaultWindow, []⟩ := by
    rw [Tcb.handshakeSegment, hwaits]
  exact bind_eq_ok.mpr ⟨st, expect_eq_ok.mpr hst, bind_eq_ok.mpr ⟨c.tcb, expect_eq_ok.mpr ht,
    bind_eq_ok.mpr ⟨_, hend, bind_eq_ok.mpr ⟨_, hseg, rfl⟩⟩⟩⟩

/-- The packets that a delivery queues. -/
def repliesTo (k : Kernel) (pkt : Packet) : Except Panic (Kernel × List Packet) := do
  let k' ← k.deliver pkt
  pure (k', k'.outbound.drop k.outbound.length)

/-- What becomes of the server when the client gets a packet, and the server every answer. -/
def exchange (server client : Kernel) (pkt : Packet) : Except Panic Kernel := do
  let (_, replies) ← client.repliesTo pkt
  replies.foldlM deliver server

/-- Did the handshake of this socket complete? -/
def isEstablished (k : Kernel) (fd : Fd) : Bool :=
  match k.tcb? fd with
  | some t => t.state == .established
  | none => false

/-- An established connection does not answer a segment with nothing in it to acknowledge. -/
theorem handleOnConnection_silent {fd : Fd} {loc rem : SocketAddr} {s : TcpSegment} {t : Tcb}
    (ht : k.tcb? fd = some t) (hstate : t.state = .established) (hrst : s.flags.rst = false)
    (hfin : s.flags.fin = false) (hpayload : s.payload = [])
    (h : k.handleOnConnection fd loc rem s = .ok k') : k'.outbound = k.outbound := by
  obtain ⟨st, hst, htc⟩ := tcb?_eq_some.mp ht
  rw [handleOnConnection, hrst, if_neg Bool.false_ne_true] at h
  obtain ⟨st', hst', h⟩ := bind_eq_ok.mp h
  obtain ⟨t', ht', h⟩ := bind_eq_ok.mp h
  cases hst.symm.trans (expect_eq_ok.mp hst')
  cases htc.symm.trans (expect_eq_ok.mp ht')
  simp only [hstate] at h
  obtain ⟨⟨ta, ack⟩, hhandled, h⟩ := bind_eq_ok.mp h
  obtain ⟨tb, -, hhandled⟩ := bind_eq_ok.mp hhandled
  have hack : ack = false := by
    simp [Tcb.onData, Tcb.onFin, hpayload, hfin, pure, Except.pure] at hhandled
    exact hhandled.2
  cases h
  simp [hack, setTcb, modifySocket]

/-- **Nobody answers the SYN-ACK** but a client that waits for it: there is no byte and no FIN in
it to acknowledge. -/
theorem synAck_unanswered {loc : SocketAddr} {t tc : Tcb}
    (hfound : k.sockets.findConnection t.peer loc = some client)
    (hclient : k.tcb? client = some tc) (hstate : tc.state = .established)
    (h : k.deliver (synAckPacket loc t) = .ok k') : k'.outbound = k.outbound := by
  refine handleOnConnection_silent hclient hstate ?_ ?_ ?_ (by
    simpa [deliver, synAckPacket, tcpDeliver, hfound] using h) <;> rfl

/-- The check completes no handshake. -/
theorem checkRetx_waits {c : Conn} (hc : k.conn? child = some c)
    (hwaits : c.tcb.state = .synReceived) (h : k.checkRetx = .ok k') :
    k'.isEstablished child = false := by
  have hafter := checkRetx_conn h child
  have hawaits : c.tcb.awaitsAck = true := by simp [Tcb.awaitsAck, hwaits, TcpState.handshake]
  rw [hc, Option.map_some, if_pos hawaits] at hafter
  obtain ⟨st, hst, ht, -⟩ := conn?_eq_some.mp hafter
  have htcb : k'.tcb? child = some (c.tcb.swept k.cfg) := tcb?_eq_some.mpr ⟨st, hst, ht⟩
  have hstate : (c.tcb.swept k.cfg).state = .synReceived ∨ (c.tcb.swept k.cfg).state = .closed := by
    rw [Tcb.swept_eq]
    split
    · exact .inl hwaits
    · split
      · exact .inr rfl
      · rw [if_pos (by rw [hwaits]; rfl)]
        exact .inl hwaits
  rw [isEstablished, htcb]
  rcases hstate with hs | hs <;> simp [hs]

end Kernel

/-! ## 2. No recovery -/

open Kernel

/-- **A SYN-ACK that is sent again recovers nothing**, whatever has happened before: delivered to
an established client, it brings no answer, and with every answer delivered the child is not
established. -/
theorem Pair.handshake_not_recovered {p : Pair} {x : Side} {child client : Fd} {c : Conn}
    {loc : SocketAddr} {k : Kernel} {pkt : Packet} (h : p.HalfOpen x child c loc client)
    (hretx : (p.kernel x).checkRetx = .ok k)
    (hpkt : (p.kernel x).emitHandshake child = .ok ((p.kernel x).pushOutbound pkt)) :
    ¬ ∃ k', k.exchange (p.kernel x.other) pkt = .ok k' ∧ k'.isEstablished child = true := by
  rintro ⟨k', hexchange, hestablished⟩
  have hsame := (emitHandshake_child h.conn h.bound h.waits).symm.trans hpkt
  have hout := congrArg Kernel.outbound (Except.ok.inj hsame)
  obtain rfl : synAckPacket loc c.tcb = pkt := List.singleton_inj.mp (List.append_cancel_left hout)
  obtain ⟨⟨kc, replies⟩, hreplies, hexchange⟩ := bind_eq_ok.mp hexchange
  obtain ⟨kc', hdeliver, hreplies⟩ := bind_eq_ok.mp hreplies
  obtain ⟨tc, htc, hstate⟩ := h.established
  have hsilent := synAck_unanswered h.found htc hstate hdeliver
  have hnone : replies = [] := by
    obtain ⟨-, hdrop⟩ := Prod.mk.inj (Except.ok.inj hreplies)
    rw [← hdrop, hsilent, List.drop_length]
  rw [hnone] at hexchange
  cases hexchange
  rw [checkRetx_waits h.conn h.waits hretx] at hestablished
  cases hestablished

namespace Pair

/-- A client connects to a listener; its ACK is lost, and the server makes another pass. -/
def lostAckOps : List PairOp :=
  [.call .right (.bind ⟨.v4 0x0A000002, 80⟩ .stream), .call .right (.listen 1 8),
    .call .left (.openSocket .inet .stream), .call .left (.connect 1 ⟨.v4 0x0A000002, 80⟩),
    .egress .left 4, .deliver 0, .egress .right 4, .deliver 0, .egress .left 4, .lose 0,
    .egress .right 4]

def lostAckAddrs : Side → List IpAddr
  | .left => [.v4 0x0A000001]
  | .right => [.v4 0x0A000002]

/-- Do the two hosts disagree about the connection? -/
def lostAckOpen (p : Pair) (c : Conn) : Bool :=
  c.loc? == some ⟨.v4 0x0A000002, 80⟩ && c.tcb.state == .synReceived
    && (p.kernel .left).sockets.findConnection c.tcb.peer ⟨.v4 0x0A000002, 80⟩ == some 1
    && ((p.kernel .left).tcb? 1).map (·.state) == some .established

/-- After a check of the server: the exchange, if the SYN-ACK is sent again. -/
def lostAckExchange (p : Pair) (c : Conn) (k : Kernel) : Option Kernel :=
  if synAckPacket ⟨.v4 0x0A000002, 80⟩ c.tcb
      ∈ k.outbound.drop (p.kernel .right).outbound.length then
    (k.exchange (p.kernel .left) (synAckPacket ⟨.v4 0x0A000002, 80⟩ c.tcb)).toOption
  else none

theorem lostAck_run : ∃ p evs c k,
    (start (fun _ => .default) lostAckAddrs).run lostAckOps = .ok (p, evs)
    ∧ p.HalfOpen .right 2 c ⟨.v4 0x0A000002, 80⟩ 1
    ∧ (p.kernel .right).checkRetx = .ok k
    ∧ synAckPacket ⟨.v4 0x0A000002, 80⟩ c.tcb ∈ k.outbound.drop (p.kernel .right).outbound.length
    ∧ ∃ k', k.exchange (p.kernel .left) (synAckPacket ⟨.v4 0x0A000002, 80⟩ c.tcb) = .ok k'
      ∧ k'.isEstablished 2 = false := by
  have hfacts : ((start (fun _ => .default) lostAckAddrs).run lostAckOps).toOption.bind
      (fun r => ((r.1.kernel .right).conn? 2).bind fun c =>
        ((r.1.kernel .right).checkRetx).toOption.bind fun k =>
          (lostAckExchange r.1 c k).map fun k' => (lostAckOpen r.1 c, k'.isEstablished 2))
      = some (true, false) := by
    decide +kernel
  obtain ⟨⟨p, evs⟩, hrun, hfacts⟩ := Option.bind_eq_some_iff.mp hfacts
  obtain ⟨c, hc, hfacts⟩ := Option.bind_eq_some_iff.mp hfacts
  obtain ⟨k, hk, hfacts⟩ := Option.bind_eq_some_iff.mp hfacts
  obtain ⟨k', hk', hfacts⟩ := Option.map_eq_some_iff.mp hfacts
  obtain ⟨hopen, hwaits⟩ := Prod.mk.inj hfacts
  rw [lostAckExchange] at hk'
  split at hk'
  · rename_i hsent
    simp only [lostAckOpen, Bool.and_eq_true, beq_iff_eq] at hopen
    obtain ⟨⟨⟨hloc, hstate⟩, hfound⟩, hclient⟩ := hopen
    obtain ⟨t, ht, hup⟩ := Option.map_eq_some_iff.mp hclient
    exact ⟨p, evs, c, k, toOption_eq_some.mp hrun, ⟨hc, hloc, hstate, hfound, t, ht, hup⟩,
      toOption_eq_some.mp hk, hsent, k', toOption_eq_some.mp hk', hwaits⟩
  · cases hk'

/-- The SYN-ACK is sent again, and changes nothing. -/
theorem handshake_not_recovered_lostAck : ∃ p evs c k,
    (start (fun _ => .default) lostAckAddrs).run lostAckOps = .ok (p, evs)
      ∧ p.HalfOpen .right 2 c ⟨.v4 0x0A000002, 80⟩ 1
      ∧ (p.kernel .right).checkRetx = .ok k
      ∧ synAckPacket ⟨.v4 0x0A000002, 80⟩ c.tcb ∈ k.outbound.drop (p.kernel .right).outbound.length
      ∧ ¬ ∃ k', k.exchange (p.kernel .left) (synAckPacket ⟨.v4 0x0A000002, 80⟩ c.tcb) = .ok k'
        ∧ k'.isEstablished 2 = true := by
  obtain ⟨p, evs, c, k, hrun, h, hk, hsent, -⟩ := lostAck_run
  exact ⟨p, evs, c, k, hrun, h, hk, hsent,
    handshake_not_recovered h hk (emitHandshake_child h.conn h.bound h.waits)⟩

/-- **The child waits on**, with its SYN-ACK delivered to a client that had it already. -/
theorem synAck_again_changes_nothing :
    ¬ ∀ (cfg : Side → KernelConfig) (addrs : Side → List IpAddr), Claims addrs →
      ∀ ops p evs, (start cfg addrs).run ops = .ok (p, evs) →
      ∀ x child c loc client, p.HalfOpen x child c loc client →
      ∀ k, (p.kernel x).checkRetx = .ok k →
      synAckPacket loc c.tcb ∈ k.outbound.drop (p.kernel x).outbound.length →
      ∃ k', k.exchange (p.kernel x.other) (synAckPacket loc c.tcb) = .ok k'
        ∧ k'.isEstablished child = true := by
  intro hall
  obtain ⟨p, evs, c, k, hrun, h, hk, hsent, k', hexchange, hwaits⟩ := lostAck_run
  have hclaims : Claims lostAckAddrs := by
    intro x
    cases x <;> decide
  obtain ⟨k'', hexchange', hestablished⟩ := hall _ _ hclaims _ _ _ hrun _ _ _ _ _ h k hk hsent
  cases hexchange.symm.trans hexchange'
  rw [hwaits] at hestablished
  cases hestablished

end Pair

end Turmoil.Net
