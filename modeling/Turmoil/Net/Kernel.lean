/-
# The kernel of a host

The state of `kernel/mod.rs`, and the few ways in which the rest of the kernel touches it: look a
socket up, change it, queue a packet.
-/
import Turmoil.Net.Socket

namespace Turmoil.Net

structure KernelConfig where
  mtu : Nat
  loopbackMtu : Nat
  sendBufCap : Nat
  recvBufCap : Nat
  defaultBacklog : Nat
  retxThreshold : Nat
  retxMax : Nat
  deriving DecidableEq, Repr

def KernelConfig.default : KernelConfig where
  mtu := 1500
  loopbackMtu := 65536
  sendBufCap := 64 * 1024
  recvBufCap := 64 * 1024
  defaultBacklog := 1024
  retxThreshold := 3
  retxMax := 5

structure Kernel where
  sockets : SocketTable
  addresses : List IpAddr
  cfg : KernelConfig
  outbound : List Packet
  tcpIsn : UInt32

namespace Kernel

def withConfig (cfg : KernelConfig) : Kernel where
  sockets := SocketTable.new
  addresses := []
  cfg := cfg
  outbound := []
  tcpIsn := 0x01000000

def lookup (k : Kernel) (fd : Fd) : Option Socket := k.sockets.get fd

/-- A change through `lookup_mut`. -/
def modifySocket (k : Kernel) (fd : Fd) (f : Socket → Socket) : Kernel :=
  { k with sockets := k.sockets.modify fd f }

/-- The control block of a socket. -/
def tcb? (k : Kernel) (fd : Fd) : Option Tcb := (k.lookup fd).bind (·.tcb)

/-- Put back a control block that was changed in place. -/
def setTcb (k : Kernel) (fd : Fd) (tcb : Tcb) : Kernel :=
  k.modifySocket fd fun st => { st with tcb := some tcb }

def removeSocket (k : Kernel) (fd : Fd) : Kernel := { k with sockets := k.sockets.remove fd }

def addAddress (k : Kernel) (addr : IpAddr) : Kernel :=
  if k.addresses.contains addr then k else { k with addresses := k.addresses ++ [addr] }

def isLocal (k : Kernel) (addr : IpAddr) : Bool := addr.isLoopback || k.addresses.contains addr

def pushOutbound (k : Kernel) (pkt : Packet) : Kernel := { k with outbound := k.outbound ++ [pkt] }

/-- `tcp::emit`. -/
def emit (k : Kernel) (src dst : SocketAddr) (seg : TcpSegment) : Kernel :=
  k.pushOutbound ⟨src.ip, dst.ip, 64, .tcp seg⟩

/-! ## What the accessors see -/

@[simp] theorem lookup_modifySocket (k : Kernel) (fd fd' : Fd) (f : Socket → Socket) :
    (k.modifySocket fd f).lookup fd' = if fd' = fd then (k.lookup fd).map f else k.lookup fd' := by
  simp [lookup, modifySocket, SocketTable.modify, SocketTable.get]

@[simp] theorem lookup_removeSocket (k : Kernel) (fd fd' : Fd) :
    (k.removeSocket fd).lookup fd' = if fd' = fd then none else k.lookup fd' := by
  simp [lookup, removeSocket, SocketTable.remove, SocketTable.get]

@[simp] theorem lookup_pushOutbound (k : Kernel) (pkt : Packet) (fd : Fd) :
    (k.pushOutbound pkt).lookup fd = k.lookup fd := rfl

@[simp] theorem lookup_emit (k : Kernel) (src dst : SocketAddr) (seg : TcpSegment) (fd : Fd) :
    (k.emit src dst seg).lookup fd = k.lookup fd := rfl

@[simp] theorem lookup_setTcb (k : Kernel) (fd fd' : Fd) (tcb : Tcb) :
    (k.setTcb fd tcb).lookup fd'
      = if fd' = fd then (k.lookup fd).map fun st => { st with tcb := some tcb }
        else k.lookup fd' := by
  simp [setTcb]

end Kernel

end Turmoil.Net
