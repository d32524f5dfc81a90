/-
# The kernel's interface

The public methods of `Kernel`: the calls of the application, dispatched by socket type, the
inbound path `deliver` and the outbound path `egress`.  A call is a constructor of `Syscall`, and
`Kernel.syscall` the state it leaves with what it returns.
-/
import Turmoil.Net.Udp

namespace Turmoil.Net

namespace Kernel

/-! ## 1. Sockets -/

/-- `open`. -/
def openSocket (k : Kernel) (domain : Domain) (ty : SockType) : Kernel × Fd :=
  let (sockets, fd) := k.sockets.insert (Socket.new domain ty)
  ({ k with sockets := sockets }, fd)

def close (k : Kernel) (fd : Fd) : Except Panic Kernel := do
  let (k, reap) ← k.onClose fd
  pure (if reap then k.removeSocket fd else k)

/-- The part of `bind` after the port is known: every binding on the port at the same address, or
with a wildcard on either side, is a conflict. -/
def bindAt (k : Kernel) (key : BindKey) : Kernel × Except NetError Fd :=
  let taken := (k.sockets.bindingsOnPort key.domain key.ty key.localPort).any fun existing =>
    existing.localAddr = key.localAddr ∨ existing.localAddr.isUnspecified
      ∨ key.localAddr.isUnspecified
  if taken then (k, .error .addrInUse)
  else
    let (k, fd) := k.openSocket key.domain key.ty
    let k := { k with sockets := k.sockets.insertBinding key fd }
    (k.modifySocket fd fun st => { st with bound := some key }, .ok fd)

def bind (k : Kernel) (addr : SocketAddr) (ty : SockType) :
    Except Panic (Kernel × Except NetError Fd) := do
  let domain := if addr.ip.isIpv4 then Domain.inet else Domain.inet6
  if !addr.ip.isUnspecified && !k.isLocal addr.ip then pure (k, .error .addrNotAvailable)
  else if addr.port = 0 then
    let (sockets, port) ← k.sockets.allocatePort domain ty
    let k := { k with sockets := sockets }
    match port with
    | none => pure (k, .error .addrInUse)
    | some port => pure (k.bindAt ⟨domain, ty, addr.ip, port⟩)
  else pure (k.bindAt ⟨domain, ty, addr.ip, addr.port⟩)

/-- The options `set_option` implements. -/
inductive SocketOption where
  | broadcast (v : Bool)
  | ipTtl (v : UInt8)
  | tcpNoDelay (v : Bool)
  deriving DecidableEq, Repr

def setOption (k : Kernel) (fd : Fd) (opt : SocketOption) : Kernel × Except NetError Unit :=
  match k.lookup fd with
  | none => (k, .error .notFound)
  | some _ =>
    (k.modifySocket fd fun st =>
      match opt with
      | .broadcast v => { st with broadcast := v }
      | .ipTtl v => { st with ttl := v }
      | .tcpNoDelay v => { st with tcpNodelay := v }, .ok ())

def localAddr (k : Kernel) (fd : Fd) : Except NetError SocketAddr :=
  match k.lookup fd with
  | none => .error .notFound
  | some st =>
    match st.bound with
    | none => .error .invalidInput
    | some key => .ok ⟨key.localAddr, key.localPort⟩

def peerAddr (k : Kernel) (fd : Fd) : Except NetError SocketAddr :=
  match k.lookup fd with
  | none => .error .notFound
  | some st =>
    match st.peer with
    | none => .error .notConnected
    | some peer => .ok peer

/-! ## 2. Connections -/

/-- Does the address belong to the socket's family? -/
def familyMatches (domain : Domain) (addr : SocketAddr) : Bool :=
  match domain with
  | .inet => addr.ip.isIpv4
  | .inet6 => !addr.ip.isIpv4
  | .unix => false

def pollConnect (k : Kernel) (fd : Fd) (peer : SocketAddr) :
    Except Panic (Kernel × Poll (Except NetError Unit)) := do
  match k.lookup fd with
  | none => pure (k, .ready (.error .notFound))
  | some st =>
    if !familyMatches st.domain peer then pure (k, .ready (.error eafnosupport))
    else
      match st.ty with
      | .dgram =>
        let (k, bound) ← k.ensureBound fd st st.ty peer.ip
        match bound with
        | .error e => pure (k, .ready (.error e))
        | .ok _ =>
          pure (k.modifySocket fd fun st => { st with peer := some peer }, .ready (.ok ()))
      | .stream => k.tcpPollConnect fd peer
      | .seqPacket => .error (.expect "SOCK_SEQPACKET connect")

def listen (k : Kernel) (fd : Fd) (backlog : Nat) : Except Panic (Kernel × Except NetError Unit) :=
  match k.lookup fd with
  | none => .ok (k, .error .notFound)
  | some st =>
    if st.ty ≠ .stream then .error (.assert "listen on non-Stream fd")
    else if st.bound.isNone then .error (.assert "listen on unbound fd")
    else .ok (k.modifySocket fd fun st => { st with listen := some ⟨backlog, []⟩ }, .ok ())

def pollAccept (k : Kernel) (fd : Fd) :
    Except Panic (Kernel × Poll (Except NetError (Fd × SocketAddr))) := do
  match k.lookup fd with
  | none => pure (k, .ready (.error .notFound))
  | some st =>
    let listen ← expect st.listen "poll_accept on non-listener fd"
    match listen.ready with
    | [] => pure (k, .pending)
    | child :: rest =>
      let k := k.modifySocket fd fun st => { st with listen := some { listen with ready := rest } }
      let c ← expect (k.lookup child) "accepted fd present"
      let tcb ← expect c.tcb "accepted fd has TCB"
      pure (k, .ready (.ok (child, tcb.peer)))

/-! ## 3. Data -/

def pollSend (k : Kernel) (fd : Fd) (buf : List UInt8) :
    Except Panic (Kernel × Poll (Except NetError Nat)) := do
  match k.lookup fd with
  | none => pure (k, .ready (.error .notFound))
  | some st =>
    match st.ty with
    | .dgram =>
      match st.peer with
      | none => pure (k, .ready (.error .notConnected))
      | some peer => k.udpSendTo fd buf peer
    | .stream => pure (k.tcpPollSend fd buf)
    | .seqPacket => .error (.expect "SOCK_SEQPACKET poll_send")

def pollSendTo (k : Kernel) (fd : Fd) (buf : List UInt8) (dst : SocketAddr) :
    Except Panic (Kernel × Poll (Except NetError Nat)) := do
  match k.lookup fd with
  | none => pure (k, .ready (.error .notFound))
  | some st =>
    if st.ty ≠ .dgram then .error (.assert "poll_send_to on non-Dgram fd")
    else if !familyMatches st.domain dst then pure (k, .ready (.error eafnosupport))
    else k.udpSendTo fd buf dst

def pollRecv (k : Kernel) (fd : Fd) (len : Nat) :
    Except Panic (Kernel × Poll (Except NetError (List UInt8))) := do
  match k.lookup fd with
  | none => pure (k, .ready (.error .notFound))
  | some st =>
    match st.ty with
    | .dgram =>
      match k.udpRecvFrom fd st len with
      | (k, .ready (_, payload)) => pure (k, .ready (.ok payload))
      | (k, .pending) => pure (k, .pending)
    | .stream => k.tcpPollRecvVectored fd [len]
    | .seqPacket => .error (.expect "SOCK_SEQPACKET poll_recv")

def pollRecvFrom (k : Kernel) (fd : Fd) (len : Nat) :
    Except Panic (Kernel × Poll (Except NetError (SocketAddr × List UInt8))) := do
  match k.lookup fd with
  | none => pure (k, .ready (.error .notFound))
  | some st =>
    if st.ty ≠ .dgram then .error (.assert "poll_recv_from on non-Dgram fd")
    else
      match k.udpRecvFrom fd st len with
      | (k, .ready r) => pure (k, .ready (.ok r))
      | (k, .pending) => pure (k, .pending)

def tryRecvVectored (k : Kernel) (fd : Fd) (lens : List Nat) :
    Except Panic (Kernel × Except NetError (List UInt8)) := do
  match k.lookup fd with
  | none => pure (k, .error .notFound)
  | some st =>
    if st.ty ≠ .stream then pure (k, .error .unsupported)
    else
      match ← k.tcpPollRecvVectored fd lens with
      | (k, .ready r) => pure (k, r)
      | (k, .pending) => pure (k, .error .wouldBlock)

def pollShutdownWrite (k : Kernel) (fd : Fd) :
    Except Panic (Kernel × Poll (Except NetError Unit)) := do
  match k.lookup fd with
  | none => pure (k, .ready (.error .notFound))
  | some st =>
    match st.ty with
    | .stream => pure (k.tcpPollShutdownWrite fd)
    | _ => .error (.expect "poll_shutdown_write on non-Stream fd")

def pollPeek (k : Kernel) (fd : Fd) (len : Nat) :
    Except Panic (Poll (Except NetError (List UInt8))) := do
  match k.lookup fd with
  | none => pure (.ready (.error .notFound))
  | some st =>
    match st.ty with
    | .dgram =>
      match udpPeekFrom st len with
      | .ready (_, payload) => pure (.ready (.ok payload))
      | .pending => pure .pending
    | .stream => pure (k.tcpPollPeek fd len)
    | .seqPacket => .error (.expect "SOCK_SEQPACKET poll_peek")

def pollPeekFrom (k : Kernel) (fd : Fd) (len : Nat) :
    Except Panic (Poll (Except NetError (SocketAddr × List UInt8))) := do
  match k.lookup fd with
  | none => pure (.ready (.error .notFound))
  | some st =>
    if st.ty ≠ .dgram then .error (.assert "poll_peek_from on non-Dgram fd")
    else
      match udpPeekFrom st len with
      | .ready r => pure (.ready (.ok r))
      | .pending => pure .pending

/-! ## 4. The two ends of the stack -/

def deliver (k : Kernel) (pkt : Packet) : Except Panic Kernel :=
  match pkt.payload with
  | .udp d => k.udpDeliver pkt d
  | .tcp s => k.tcpDeliver pkt s

/-- The drain of `egress`: local packets are delivered at once, the others leave the host. -/
def route : Kernel → List Packet → Except Panic (Kernel × List Packet)
  | k, [] => pure (k, [])
  | k, pkt :: pkts => do
    if k.isLocal pkt.dst then
      let k ← k.deliver pkt
      route k pkts
    else
      let (k, out) ← route k pkts
      pure (k, pkt :: out)

/-- The loop of `egress`; the fuel bounds the number of passes. -/
def egressLoop : Nat → Kernel → Except Panic (Kernel × List Packet)
  | 0, _ => .error .diverges
  | fuel + 1, k => do
    let k ← k.segmentAll
    if k.outbound.isEmpty then pure (k, [])
    else
      let (k, out) ← route { k with outbound := [] } k.outbound
      let (k, more) ← egressLoop fuel k
      pure (k, out ++ more)

/-- `egress`, for a call whose loop ends within `fuel` passes: the packets that leave the host. -/
def egress (fuel : Nat) (k : Kernel) : Except Panic (Kernel × List Packet) := do
  let k ← k.checkRetx
  let (k, out) ← egressLoop fuel k
  pure (k.reapClosed, out)

end Kernel

/-! ## 5. Calls as data -/

/-- A call of the application. -/
inductive Syscall where
  | openSocket (domain : Domain) (ty : SockType)
  | bind (addr : SocketAddr) (ty : SockType)
  | listen (fd : Fd) (backlog : Nat)
  | connect (fd : Fd) (peer : SocketAddr)
  | accept (fd : Fd)
  | send (fd : Fd) (buf : List UInt8)
  | sendTo (fd : Fd) (buf : List UInt8) (dst : SocketAddr)
  | recv (fd : Fd) (len : Nat)
  | recvFrom (fd : Fd) (len : Nat)
  | tryRecvVectored (fd : Fd) (lens : List Nat)
  | peek (fd : Fd) (len : Nat)
  | peekFrom (fd : Fd) (len : Nat)
  | shutdown (fd : Fd)
  | close (fd : Fd)
  | setOption (fd : Fd) (opt : Kernel.SocketOption)

/-- What a call returns. -/
inductive Reply where
  | none
  | socket (r : Except NetError Fd)
  | status (r : Poll (Except NetError Unit))
  | accepted (r : Poll (Except NetError (Fd × SocketAddr)))
  | size (r : Poll (Except NetError Nat))
  | bytes (r : Poll (Except NetError (List UInt8)))
  | datagram (r : Poll (Except NetError (SocketAddr × List UInt8)))

/-- The state a call leaves, and what it returns. -/
def Kernel.syscall (k : Kernel) : Syscall → Except Panic (Kernel × Reply)
  | .openSocket domain ty =>
    let (k, fd) := k.openSocket domain ty
    .ok (k, .socket (.ok fd))
  | .bind addr ty => do
    let (k, r) ← k.bind addr ty
    pure (k, .socket r)
  | .listen fd backlog => do
    let (k, r) ← k.listen fd backlog
    pure (k, .status (.ready r))
  | .connect fd peer => do
    let (k, r) ← k.pollConnect fd peer
    pure (k, .status r)
  | .accept fd => do
    let (k, r) ← k.pollAccept fd
    pure (k, .accepted r)
  | .send fd buf => do
    let (k, r) ← k.pollSend fd buf
    pure (k, .size r)
  | .sendTo fd buf dst => do
    let (k, r) ← k.pollSendTo fd buf dst
    pure (k, .size r)
  | .recv fd len => do
    let (k, r) ← k.pollRecv fd len
    pure (k, .bytes r)
  | .recvFrom fd len => do
    let (k, r) ← k.pollRecvFrom fd len
    pure (k, .datagram r)
  | .tryRecvVectored fd lens => do
    let (k, r) ← k.tryRecvVectored fd lens
    pure (k, .bytes (.ready r))
  | .peek fd len => do
    let r ← k.pollPeek fd len
    pure (k, .bytes r)
  | .peekFrom fd len => do
    let r ← k.pollPeekFrom fd len
    pure (k, .datagram r)
  | .shutdown fd => do
    let (k, r) ← k.pollShutdownWrite fd
    pure (k, .status r)
  | .close fd => do
    let k ← k.close fd
    pure (k, .none)
  | .setOption fd opt =>
    let (k, r) := k.setOption fd opt
    .ok (k, .status (.ready r))

/-- Something that happens to one kernel: a call, a packet from outside, a turn of `egress`. -/
inductive KernelOp where
  | call (c : Syscall)
  | deliver (pkt : Packet)
  | egress (fuel : Nat)

/-- The kernel afterwards, what was returned, and what left the host. -/
def Kernel.step (k : Kernel) : KernelOp → Except Panic (Kernel × Reply × List Packet)
  | .call c => do
    let (k, r) ← k.syscall c
    pure (k, r, [])
  | .deliver pkt => do
    let k ← k.deliver pkt
    pure (k, .none, [])
  | .egress fuel => do
    let (k, out) ← k.egress fuel
    pure (k, .none, out)

end Turmoil.Net
