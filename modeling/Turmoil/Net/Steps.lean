/-
# What the kernel can do to its connections

Whatever is called, a kernel changes its connections in few ways.  `Tcb.act` is what can happen
to one control block, together with the segments that go out for it; `KStep` is what can happen to
the kernel: such an act, a new connection (opened or accepted), the end of one, an answer to a
segment that belongs to none, or a change that leaves the connections alone (`Quiet`).

Every call of the kernel is a sequence of these steps (`Kernel.syscall_steps`,
`Kernel.deliver_steps` and `Kernel.egress_steps` in `Net.Calls`), so an invariant of connections is
checked once, on `KStep`.
-/
import Mathlib.Logic.Relation
import Turmoil.Net.Syscall

namespace Turmoil.Net

/-! ## 1. Acts on a control block -/

inductive TcbAct where
  /-- A segment arrives. -/
  | inbound (s : TcpSegment)
  | send (buf : List UInt8)
  | shutdown
  | recv (lens : List Nat)
  /-- The application drops a connection with nothing left to read. -/
  | linger
  /-- The sweep of `check_retx`. -/
  | count
  /-- The retransmissions are used up. -/
  | giveUp
  | handshake
  /-- `segment_one`. -/
  | segment (mss : Nat)

/-- The acts of the sweeps that `egress` makes over all connections. -/
def TcbAct.isSweep : TcbAct → Bool
  | count | giveUp | handshake | segment _ => true
  | _ => false

/-- Which control blocks an act is for, where the kernel looks first. -/
def TcbAct.Fits (t : Tcb) : TcbAct → Prop
  | linger => Kernel.closesActively t = true ∧ t.recvBuf = []
  | segment _ => t.wantsSegment = true
  | _ => True

namespace Tcb

/-- A segment for this control block, as `handle_on_connection` treats it. -/
def onSegment (recvCap : Nat) (loc rem : SocketAddr) (t : Tcb) (s : TcpSegment) :
    Except Panic (Tcb × List TcpSegment) :=
  if s.flags.rst then .ok (t.abort .reset, [])
  else
    match t.state with
    | .synSent =>
      if s.flags.syn && s.flags.ack then
        .ok (t.onSynAck s,
          [⟨loc.port, rem.port, t.sndNxt, s.seq + 1, { ack := true }, advertisedWindow recvCap 0, []⟩])
      else .ok (t, [])
    | .synReceived =>
      if s.flags.ack && !s.flags.syn then
        if s.ack != t.sndNxt then .ok (t, []) else .ok (t.onHandshakeAck s, [])
      else .ok (t, [])
    | .closed => .ok (t, [])
    | _ => do
      let (t, sendAck) ← t.handleEstablished recvCap s
      pure (t, if sendAck then [t.ackSegment recvCap loc rem] else [])

/-- The control block after an act, and the segments that go out. -/
def act (cfg : KernelConfig) (loc rem : SocketAddr) (t : Tcb) :
    TcbAct → Except Panic (Tcb × List TcpSegment)
  | .inbound s => t.onSegment cfg.recvBufCap loc rem s
  | .send buf => .ok ((t.pollSend cfg.sendBufCap buf).1, [])
  | .shutdown => .ok (t.pollShutdownWrite.1, [])
  | .recv lens =>
    let r := t.pollRecvVectored cfg.recvBufCap lens
    .ok (r.1, if r.2.2 then [r.1.ackSegment cfg.recvBufCap loc rem] else [])
  | .linger => .ok (if t.wrClosed then t else t.shutWrite, [])
  | .count => .ok ((t.checkRetx cfg.retxThreshold cfg.retxMax).1, [])
  | .giveUp => .ok (t.abort .timedOut, [])
  | .handshake => do
    let seg ← t.handshakeSegment loc
    pure (t, [seg])
  | .segment mss => t.segmentLoop cfg.recvBufCap mss loc (t.sendBuf.length + 2)

end Tcb

/-! ## 2. Connections of a kernel -/

/-- A socket with a control block. -/
structure Conn where
  bound : Option BindKey
  tcb : Tcb
  fdClosed : Bool

/-- The local address of a connection. -/
def Conn.loc? (c : Conn) : Option SocketAddr := c.bound.map fun key => ⟨key.localAddr, key.localPort⟩

namespace Kernel

def conn? (k : Kernel) (fd : Fd) : Option Conn :=
  (k.lookup fd).bind fun st => st.tcb.map fun t => ⟨st.bound, t, st.fdClosed⟩

theorem conn?_eq_some {k : Kernel} {fd : Fd} {c : Conn} :
    k.conn? fd = some c ↔ ∃ st, k.lookup fd = some st ∧ st.tcb = some c.tcb ∧ st.bound = c.bound
      ∧ st.fdClosed = c.fdClosed := by
  unfold conn?
  constructor
  · intro h
    obtain ⟨st, hst, h⟩ := Option.bind_eq_some_iff.mp h
    obtain ⟨t, ht, rfl⟩ := Option.map_eq_some_iff.mp h
    exact ⟨st, hst, ht, rfl, rfl⟩
  · rintro ⟨st, hst, ht, hb, hf⟩
    rw [hst, Option.bind_some, ht, Option.map_some, hb, hf]

theorem conn?_of_lookup {k : Kernel} {fd : Fd} {st : Socket} {t : Tcb} (h : k.lookup fd = some st)
    (ht : st.tcb = some t) : k.conn? fd = some ⟨st.bound, t, st.fdClosed⟩ :=
  conn?_eq_some.mpr ⟨st, h, ht, rfl, rfl⟩

/-- The socket `fd` has a connection from `loc` to `rem`. -/
def Connected (k : Kernel) (loc rem : SocketAddr) (fd : Fd) : Prop :=
  ∃ c, k.conn? fd = some c ∧ c.loc? = some loc ∧ c.tcb.peer = rem

/-- The connections are the same, and nothing was sent. -/
structure Quiet (k k' : Kernel) : Prop where
  cfg : k'.cfg = k.cfg
  addresses : k'.addresses = k.addresses
  outbound : k'.outbound = k.outbound
  connections : k'.sockets.connections = k.sockets.connections
  nextId : k.sockets.nextId ≤ k'.sockets.nextId
  conn : ∀ fd, k'.conn? fd = k.conn? fd
  /-- A descriptor in the new table was there before, or is a new one. -/
  known : ∀ fd st', k'.lookup fd = some st' → (∃ st, k.lookup fd = some st)
    ∨ (k.sockets.nextId ≤ fd ∧ fd < k'.sockets.nextId)
  /-- A socket is only ever bound to one of the host's addresses or to a wildcard. -/
  bound : ∀ fd st' key, k'.lookup fd = some st' → st'.bound = some key →
    (∃ st, k.lookup fd = some st ∧ st.bound = some key) ∨ key.localAddr.isUnspecified = true
      ∨ k.isLocal key.localAddr = true
  /-- Only a stream socket begins to listen. -/
  streams : ∀ fd st', k'.lookup fd = some st' → (st'.tcb.isSome || st'.listen.isSome) = true →
    st'.ty = .stream ∨ ∃ st, k.lookup fd = some st ∧ st.ty = st'.ty
      ∧ (st.tcb.isSome || st.listen.isSome) = true
  /-- Only a connection past its handshake is queued. -/
  queued : ∀ g c, c ∈ k'.sockets.ready g → c ∈ k.sockets.ready g
    ∨ ∃ x, k.conn? c = some x ∧ x.tcb.state.handshake = false

/-- Replace the control block of a connection. -/
def putTcb (k : Kernel) (fd : Fd) (t : Tcb) (fdClosed : Bool) : Kernel :=
  k.modifySocket fd fun st => { st with tcb := some t, fdClosed := fdClosed }

/-- A connection `fd` was set up between `loc` and its peer, and its first segment queued. -/
structure Opened (k k' : Kernel) (fd : Fd) (c : Conn) (loc : SocketAddr) (seg : TcpSegment) :
    Prop where
  cfg : k'.cfg = k.cfg
  addresses : k'.addresses = k.addresses
  outbound : k'.outbound = k.outbound ++ [⟨loc.ip, c.tcb.peer.ip, 64, .tcp seg⟩]
  connections : k'.sockets.connections = k.sockets.connections.insert (loc, c.tcb.peer) fd
  nextId : k.sockets.nextId ≤ k'.sockets.nextId
  conn : ∀ g, k'.conn? g = if g = fd then some c else k.conn? g
  known : ∀ g st', g ≠ fd → k'.lookup g = some st' → k.lookup g = some st'
  bound : ∀ st', k'.lookup fd = some st' → st'.bound = c.bound
  /-- It is of the type of a stream socket or of a listener. -/
  streams : ∀ st', k'.lookup fd = some st' → st'.ty = .stream
    ∨ ∃ g st, k.lookup g = some st ∧ st.ty = st'.ty ∧ st.listen.isSome = true
  queued : ∀ g c, c ∈ k'.sockets.ready g → c ∈ k.sockets.ready g
  endpoint : c.loc? = some loc
  concrete : loc.ip.isUnspecified = false

/-- Which segments arrive, at which local address and from where, which other acts take place,
which connections are set up, from which local address and to where, and which sockets are
removed. -/
structure Scope where
  arrives : SocketAddr → SocketAddr → TcpSegment → Prop
  acts : Fd → TcbAct → Prop
  opens : SocketAddr → SocketAddr → Fd → Prop
  removes : Fd → Prop

/-- Anything goes. -/
def Scope.any : Scope := ⟨fun _ _ _ => True, fun _ _ => True, fun _ _ _ => True, fun _ => True⟩

/-- One thing that can happen in a kernel. -/
inductive KStep (σ : Scope) : Kernel → Kernel → Prop
  | quiet {k k' : Kernel} (h : Quiet k k') : KStep σ k k'
  /-- Something happens to the connection `fd`.  What goes out goes from its local address to its
  peer, or back the way a segment came that the index gave to it. -/
  | act {k : Kernel} {fd : Fd} {c : Conn} {t : Tcb} {loc rem : SocketAddr} {a : TcbAct}
      {segs : List TcpSegment} {fdClosed : Bool} (hc : k.conn? fd = some c)
      (ha : c.tcb.act k.cfg loc rem a = .ok (t, segs))
      (hin : ∀ s, a = .inbound s →
        k.sockets.findConnection loc rem = some fd ∧ σ.arrives loc rem s)
      (hq : (∀ s, a ≠ .inbound s) → σ.acts fd a)
      (hloc : segs ≠ [] → (∀ s, a ≠ .inbound s) → c.loc? = some loc ∧ c.tcb.peer = rem)
      (hclosed : fdClosed = c.fdClosed ∨ a = .linger) (hfit : a.Fits c.tcb) :
      KStep σ k ((k.putTcb fd t fdClosed).emitAll loc rem segs)
  | connect {k k' : Kernel} {fd : Fd} {st : Socket} {peer loc : SocketAddr}
      (hst : k.lookup fd = some st) (ht : st.tcb = none) (ho : σ.opens loc peer fd)
      (h : Opened k k' fd ⟨st.bound, Tcb.fresh .synSent peer k.tcpIsn defaultWindow 0, st.fdClosed⟩
        loc ⟨loc.port, peer.port, k.tcpIsn, 0, { syn := true }, defaultWindow, []⟩) :
      KStep σ k k'
  | accept {k k' : Kernel} {key : BindKey} {loc rem : SocketAddr} {s : TcpSegment}
      (hnone : k.sockets.findConnection loc rem = none) (hin : σ.arrives loc rem s)
      (hsyn : s.flags.syn = true ∧ s.flags.ack = false) (ho : σ.opens loc rem k.sockets.nextId)
      (hid : k'.sockets.nextId = k.sockets.nextId + 1)
      (h : Opened k k' k.sockets.nextId
        ⟨some key, Tcb.fresh .synReceived rem k.tcpIsn s.window (s.seq + 1), false⟩
        loc ⟨loc.port, rem.port, k.tcpIsn, s.seq + 1, { syn := true, ack := true }, defaultWindow,
          []⟩) : KStep σ k k'
  /-- The answer to a segment that belongs to no connection. -/
  | reject {k : Kernel} {loc rem : SocketAddr} (s : TcpSegment)
      (hnone : k.sockets.findConnection loc rem = none) (hin : σ.arrives loc rem s) :
      KStep σ k (k.emitRst loc rem s)
  /-- The last segment of a connection that is about to be removed. -/
  | reset {k : Kernel} {fd : Fd} {c : Conn} {loc : SocketAddr} (hc : k.conn? fd = some c)
      (hloc : c.loc? = some loc) (hrm : σ.removes fd) :
      KStep σ k (k.emit loc c.tcb.peer (c.tcb.rstSegment loc c.tcb.peer))
  /-- A socket is removed: by a call, or because it is closed and TCP has finished with it. -/
  | remove {k : Kernel} {fd : Fd}
      (hrm : σ.removes fd ∨ ∃ st, k.lookup fd = some st ∧ reapable st = true) :
      KStep σ k (k.removeSocket fd)
  | datagram {k : Kernel} (src dst : IpAddr) (d : UdpDatagram) :
      KStep σ k (k.pushOutbound ⟨src, dst, 64, .udp d⟩)

/-- A sequence of steps. -/
abbrev KSteps (σ : Scope) : Kernel → Kernel → Prop := Relation.ReflTransGen (KStep σ)

/-- A step of `egress`, together with the packets that have left the host. -/
inductive EStep (σ : Scope) : Kernel × List Packet → Kernel × List Packet → Prop
  | inner {k k' : Kernel} {out : List Packet} (h : KStep σ k k') : EStep σ (k, out) (k', out)
  /-- The queue is taken, and what is not local leaves. -/
  | drain {k : Kernel} {out : List Packet} :
      EStep σ (k, out)
        ({ k with outbound := [] }, out ++ k.outbound.filter fun pkt => !k.isLocal pkt.dst)

abbrev ESteps (σ : Scope) : Kernel × List Packet → Kernel × List Packet → Prop :=
  Relation.ReflTransGen (EStep σ)

end Kernel

end Turmoil.Net
