/-
# What the shims ask of a kernel

An application does not name descriptors.  It holds a `TcpListener`, a `TcpStream` or a `UdpSocket`,
and the type decides which calls it can make: a listener is bound and put to listen in one go, a
stream is opened and polled with one peer until it connects, and dropping any of them closes the
descriptor.  `Host` is a kernel together with the handles its application holds, and `Host.step`
what the application, the network and the clock do to it.
-/
import Turmoil.Net.Syscall

namespace Turmoil.Net

/-! ## 1. Handles -/

/-- What holds a descriptor.  `connecting` is the guard of `TcpStream::connect`, which polls one
peer. -/
inductive Handle where
  | listener
  | connecting (peer : SocketAddr)
  | stream
  | udp
  deriving DecidableEq, Repr

/-- `domain_of`. -/
def domainOf (ip : IpAddr) : Domain := if ip.isIpv4 then .inet else .inet6

/-- The descriptor a call is about. -/
def Syscall.fd? : Syscall → Option Fd
  | .openSocket .. | .bind .. => none
  | .listen fd _ | .connect fd _ | .accept fd | .send fd _ | .sendTo fd _ _ | .recv fd _
  | .recvFrom fd _ | .tryRecvVectored fd _ | .peek fd _ | .peekFrom fd _ | .shutdown fd | .close fd
  | .setOption fd _ => some fd

/-- The calls the methods and the destructor of a handle make. -/
def Handle.permits (handle : Handle) : Syscall → Bool
  | .accept _ => handle == .listener
  | .connect _ peer => handle == .udp || handle == .connecting peer
  | .send .. | .recv .. => handle == .stream || handle == .udp
  | .tryRecvVectored .. | .peek .. | .shutdown _ => handle == .stream
  | .sendTo .. | .recvFrom .. | .peekFrom .. => handle == .udp
  | .setOption .. | .close _ => true
  | .openSocket .. | .bind .. | .listen .. => false

/-- A kernel, and what its application holds. -/
structure Host where
  kernel : Kernel
  handles : IndexMap Fd Handle

/-! ## 2. Steps -/

inductive ShimOp where
  /-- `TcpListener::bind`. -/
  | listen (addr : SocketAddr)
  /-- `TcpStream::connect`, up to its first poll. -/
  | connect (peer : SocketAddr)
  /-- `UdpSocket::bind`. -/
  | bindUdp (addr : SocketAddr)
  /-- A method of a handle, or its destructor. -/
  | call (c : Syscall)
  | deliver (pkt : Packet)
  | egress (fuel : Nat)

namespace Host

/-- A host before its application starts. -/
def new (cfg : KernelConfig) (addrs : List IpAddr) : Host where
  kernel := addrs.foldl Kernel.addAddress (Kernel.withConfig cfg)
  handles := IndexMap.empty

/-- `TcpListener::bind`. -/
def listen (h : Host) (addr : SocketAddr) : Except Panic (Host × Except NetError Fd) := do
  let (k, r) ← h.kernel.bind addr .stream
  match r with
  | .error e => pure ({ h with kernel := k }, .error e)
  | .ok fd =>
    let (k, r) ← k.listen fd k.cfg.defaultBacklog
    match r with
    | .error e => pure ({ h with kernel := k }, .error e)
    | .ok () => pure (⟨k, h.handles.insert fd .listener⟩, .ok fd)

/-- `UdpSocket::bind`. -/
def bindUdp (h : Host) (addr : SocketAddr) : Except Panic (Host × Except NetError Fd) := do
  let (k, r) ← h.kernel.bind addr .dgram
  match r with
  | .error e => pure ({ h with kernel := k }, .error e)
  | .ok fd => pure (⟨k, h.handles.insert fd .udp⟩, .ok fd)

/-- The descriptor of `TcpStream::connect`. -/
def connect (h : Host) (peer : SocketAddr) : Host × Fd :=
  let (k, fd) := h.kernel.openSocket (domainOf peer.ip) .stream
  (⟨k, h.handles.insert fd (.connecting peer)⟩, fd)

/-- What a call by `handle` leaves the application with: an accepted stream, a stream that is
connected or whose guard is dropped, one handle less. -/
def settle (h : Host) (handle : Handle) (k : Kernel) : Syscall → Reply → Except Panic Host
  | .accept _, .accepted (.ready (.ok (child, _))) =>
    .ok ⟨k, h.handles.insert child .stream⟩
  | .connect fd _, .status (.ready r) =>
    match handle, r with
    | .connecting _, .ok () => .ok ⟨k, h.handles.insert fd .stream⟩
    | .connecting _, .error _ => do
      let k ← k.close fd
      pure ⟨k, h.handles.swapRemove fd⟩
    | _, _ => .ok { h with kernel := k }
  | .close fd, _ => .ok ⟨k, h.handles.swapRemove fd⟩
  | _, _ => .ok { h with kernel := k }

/-- A call by whatever holds its descriptor; without a handle that can make it there is none. -/
def call (h : Host) (c : Syscall) : Except Panic (Host × Reply) :=
  match c.fd?.bind h.handles.get? with
  | none => .ok (h, .none)
  | some handle =>
    if handle.permits c then do
      let (k, r) ← h.kernel.syscall c
      let h ← h.settle handle k c r
      pure (h, r)
    else .ok (h, .none)

def step (h : Host) : ShimOp → Except Panic (Host × Reply × List Packet)
  | .listen addr => do
    let (h, r) ← h.listen addr
    pure (h, .socket r, [])
  | .connect peer =>
    let (h, fd) := h.connect peer
    .ok (h, .socket (.ok fd), [])
  | .bindUdp addr => do
    let (h, r) ← h.bindUdp addr
    pure (h, .socket r, [])
  | .call c => do
    let (h, r) ← h.call c
    pure (h, r, [])
  | .deliver pkt => do
    let k ← h.kernel.deliver pkt
    pure ({ h with kernel := k }, .none, [])
  | .egress fuel => do
    let (k, out) ← h.kernel.egress fuel
    pure ({ h with kernel := k }, .none, out)

/-- The host after a list of steps. -/
def run (h : Host) : List ShimOp → Except Panic Host
  | [] => .ok h
  | op :: ops => do
    let (h, _, _) ← h.step op
    run h ops

end Host

end Turmoil.Net
