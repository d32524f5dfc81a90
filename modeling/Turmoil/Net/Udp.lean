/-
# UDP

The functions of `kernel/udp.rs`.
-/
import Turmoil.Net.Tcp

namespace Turmoil.Net

namespace Kernel

/-- `max_payload`. -/
def maxPayload (k : Kernel) (dst : SocketAddr) : Nat :=
  (if dst.ip.isLoopback then k.cfg.loopbackMtu else k.cfg.mtu) - dst.ip.headerSize - udpHeaderSize

/-- The source address of a datagram sent from a bound socket. -/
def udpSource (k : Kernel) (key : BindKey) (dst : SocketAddr) : IpAddr :=
  if key.localAddr.isUnspecified then
    if dst.ip.isLoopback then dst.ip.localhostLike else (k.addressLike dst.ip).getD key.localAddr
  else key.localAddr

/-- `udp::send_to`. -/
def udpSendTo (k : Kernel) (fd : Fd) (buf : List UInt8) (dst : SocketAddr) :
    Except Panic (Kernel × Poll (Except NetError Nat)) := do
  let st ← expect (k.lookup fd) "fd validated by Kernel::poll_send_to"
  if dst.ip.isIpv4Broadcast && !st.broadcast then pure (k, .ready (.error .permissionDenied))
  else if buf.length % 2 ^ 32 > k.maxPayload dst then pure (k, .ready (.error emsgsize))
  else
    let (k, bound) ← k.ensureBound fd st .dgram dst.ip
    match bound with
    | .error e => pure (k, .ready (.error e))
    | .ok key =>
      pure (k.pushOutbound
        ⟨k.udpSource key dst, dst.ip, 64, .udp ⟨key.localPort, dst.port, buf⟩⟩,
        .ready (.ok buf.length))

/-- `udp::recv_from`: the datagram, cut to the buffer. -/
def udpRecvFrom (k : Kernel) (fd : Fd) (st : Socket) (len : Nat) :
    Kernel × Poll (SocketAddr × List UInt8) :=
  match st.recvQueue with
  | [] => (k, .pending)
  | (sender, payload) :: rest =>
    (k.modifySocket fd fun st => { st with recvQueue := rest }, .ready (sender, payload.take len))

/-- `udp::peek_from`. -/
def udpPeekFrom (st : Socket) (len : Nat) : Poll (SocketAddr × List UInt8) :=
  match st.recvQueue with
  | [] => .pending
  | (sender, payload) :: _ => .ready (sender, payload.take len)

/-- `udp::deliver`: to the first socket bound to the address, else to the wildcard. -/
def udpDeliver (k : Kernel) (pkt : Packet) (d : UdpDatagram) : Except Panic Kernel := do
  let domain := if pkt.dst.isIpv4 then Domain.inet else Domain.inet6
  let exact : BindKey := ⟨domain, .dgram, pkt.dst, d.dstPort⟩
  let wildcard : BindKey := ⟨domain, .dgram, pkt.dst.unspecifiedLike, d.dstPort⟩
  match (k.sockets.findByBind exact).head? <|> (k.sockets.findByBind wildcard).head? with
  | none => pure k
  | some fd =>
    let st ← expect (k.lookup fd) "socket entry present"
    let sender : SocketAddr := ⟨pkt.src, d.srcPort⟩
    if st.peer.isSome ∧ st.peer ≠ some sender then pure k
    else pure (k.modifySocket fd fun st =>
      { st with recvQueue := st.recvQueue ++ [(sender, d.payload)] })

end Kernel

end Turmoil.Net
