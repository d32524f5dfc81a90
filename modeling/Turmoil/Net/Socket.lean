/-
# Sockets and the socket table

The types of `kernel/socket.rs`: the control block of a TCP connection, the per-socket state, and
the table with its two indices, by bound address and by connection 4-tuple.  Wakers are left out:
they carry no data and decide nothing the kernel does.
-/
import Turmoil.Lib.IndexMap
import Turmoil.Net.Packet

namespace Turmoil.Net

/-! ## 1. Sockets -/

inductive Domain where
  | inet
  | inet6
  | unix
  deriving DecidableEq, Repr

inductive SockType where
  | stream
  | dgram
  | seqPacket
  deriving DecidableEq, Repr

inductive TcpState where
  | synSent
  | synReceived
  | established
  | finWait1
  | finWait2
  | closeWait
  | lastAck
  | closing
  | closed
  deriving DecidableEq, Repr

abbrev Fd := Nat

/-- A control block.  `sendBuf` holds the bytes from `sndUna` on, in flight or queued. -/
structure Tcb where
  state : TcpState
  peer : SocketAddr
  sndNxt : UInt32
  sndUna : UInt32
  sndWnd : UInt16
  rcvNxt : UInt32
  sendBuf : List UInt8
  recvBuf : List UInt8
  wrClosed : Bool
  peerFin : Bool
  finSeq : Option UInt32
  reset : Bool
  timedOut : Bool
  egressSinceAck : Nat
  retxAttempts : Nat
  deriving DecidableEq, Repr

structure ListenState where
  backlog : Nat
  ready : List Fd
  deriving DecidableEq, Repr

structure BindKey where
  domain : Domain
  ty : SockType
  localAddr : IpAddr
  localPort : UInt16
  deriving DecidableEq, Repr

structure Socket where
  domain : Domain
  ty : SockType
  bound : Option BindKey
  peer : Option SocketAddr
  broadcast : Bool
  ttl : UInt8
  tcpNodelay : Bool
  recvQueue : List (SocketAddr × List UInt8)
  tcb : Option Tcb
  listen : Option ListenState
  fdClosed : Bool
  deriving DecidableEq, Repr

def Socket.new (domain : Domain) (ty : SockType) : Socket where
  domain := domain
  ty := ty
  bound := none
  peer := none
  broadcast := false
  ttl := 64
  tcpNodelay := false
  recvQueue := []
  tcb := none
  listen := none
  fdClosed := false

/-! ## 2. Ephemeral ports -/

/-- A linear scan over `lo..=hi` with a rotating cursor. -/
structure PortAllocator where
  lo : UInt16
  hi : UInt16
  cursor : UInt16
  deriving DecidableEq, Repr

namespace PortAllocator

def new (lo hi : UInt16) : PortAllocator := ⟨lo, hi, lo⟩

/-- The cursor after handing out or skipping its port. -/
def advance (a : PortAllocator) : PortAllocator :=
  { a with cursor := if a.cursor = a.hi then a.lo else a.cursor + 1 }

/-- The loop of `allocate`, from the port the scan began at; `2 ^ 16` turns see every port. -/
def scan (inUse : UInt16 → Bool) (start : UInt16) :
    Nat → PortAllocator → Except Panic (PortAllocator × Option UInt16)
  | 0, _ => .error .diverges
  | fuel + 1, a =>
    let p := a.cursor
    let a := a.advance
    if !inUse p then .ok (a, some p)
    else if a.cursor = start then .ok (a, none)
    else scan inUse start fuel a

def allocate (a : PortAllocator) (inUse : UInt16 → Bool) :
    Except Panic (PortAllocator × Option UInt16) :=
  scan inUse a.cursor (2 ^ 16) a

end PortAllocator

/-! ## 3. The table -/

structure SocketTable where
  nextId : Nat
  sockets : IndexMap Fd Socket
  bindings : IndexMap BindKey (List Fd)
  connections : IndexMap (SocketAddr × SocketAddr) Fd
  ports : PortAllocator

namespace SocketTable

def new : SocketTable where
  nextId := 1
  sockets := IndexMap.empty
  bindings := IndexMap.empty
  connections := IndexMap.empty
  ports := PortAllocator.new 49152 65535

def insert (t : SocketTable) (s : Socket) : SocketTable × Fd :=
  ({ t with nextId := t.nextId + 1, sockets := t.sockets.insert t.nextId s }, t.nextId)

def get (t : SocketTable) (fd : Fd) : Option Socket := t.sockets.get? fd

/-- A change through `get_mut`. -/
def modify (t : SocketTable) (fd : Fd) (f : Socket → Socket) : SocketTable :=
  { t with sockets := t.sockets.modify fd f }

/-- Remove a socket and what the two indices say about it. -/
def remove (t : SocketTable) (fd : Fd) : SocketTable :=
  { t with
    bindings := (t.bindings.mapValues (·.filter (· ≠ fd))).retain fun _ fds => !fds.isEmpty
    connections := t.connections.retain fun _ f => f ≠ fd
    sockets := t.sockets.shiftRemove fd }

def findByBind (t : SocketTable) (key : BindKey) : List Fd := (t.bindings.get? key).getD []

def insertBinding (t : SocketTable) (key : BindKey) (fd : Fd) : SocketTable :=
  { t with bindings := t.bindings.insert key (t.findByBind key ++ [fd]) }

/-- Index a connection; the local address must be concrete. -/
def insertConnection (t : SocketTable) (loc rem : SocketAddr) (fd : Fd) :
    Except Panic SocketTable :=
  if loc.ip.isUnspecified then .error (.assert "connection index requires concrete local addr")
  else .ok { t with connections := t.connections.insert (loc, rem) fd }

def findConnection (t : SocketTable) (loc rem : SocketAddr) : Option Fd :=
  t.connections.get? (loc, rem)

/-- The connections with this local address, with their remote ends. -/
def connectionsOn (t : SocketTable) (loc : SocketAddr) : List (SocketAddr × Fd) :=
  (t.connections.entries.filter fun e => e.1.1 = loc).map fun e => (e.1.2, e.2)

/-- The bindings on a port, at any local address. -/
def bindingsOnPort (t : SocketTable) (domain : Domain) (ty : SockType) (port : UInt16) :
    List BindKey :=
  t.bindings.keys.filter fun k => k.domain = domain ∧ k.ty = ty ∧ k.localPort = port

def allocatePort (t : SocketTable) (domain : Domain) (ty : SockType) :
    Except Panic (SocketTable × Option UInt16) := do
  let (ports, p) ← t.ports.allocate fun p =>
    t.bindings.keys.any fun k => k.domain = domain ∧ k.ty = ty ∧ k.localPort = p
  .ok ({ t with ports := ports }, p)

/-- The accept queue of a listener. -/
def ready (t : SocketTable) (g : Fd) : List Fd :=
  match (t.get g).bind (·.listen) with
  | some l => l.ready
  | none => []

theorem mem_ready {t : SocketTable} {g c : Fd} : c ∈ t.ready g ↔
    ∃ st l, t.get g = some st ∧ st.listen = some l ∧ c ∈ l.ready := by
  unfold ready
  cases hst : t.get g with
  | none => simp
  | some st => cases hl : st.listen <;> simp [hl]

end SocketTable

end Turmoil.Net
