/-
# UDP sockets of the simulated hosts

`Udp` of `host.rs` and `net/udp.rs`.  A bind is a port of a host, with a bounded channel to the socket;
the socket keeps at most one datagram that `readable` took out of it.  A socket lives as long as its
bind, so both are one record here, and a socket is named by its host and its port.

A send goes to one address, to every host with the port, or to the members of a multicast group; what
goes to the sending host itself is handed over by a task that sleeps for a tick.  Packets under way are
a bag: they arrive in any order, or not at all.  Every channel has a number, which no function reads: it
tells the sockets apart that have had the same port.  The lock around the receiving end is not modelled:
a step is a call that has it.
-/
import Turmoil.Stream.Hosts

namespace Turmoil.Udp

open Turmoil.Net (IpAddr SocketAddr NetError)
open Turmoil.Stream (matchesBind isSame)

/-! ## 1. Multicast groups -/

/-- `IndexSet`. -/
abbrev IndexSet (κ : Type) := IndexMap κ Unit

/-- The members of every group, by the group's address with the port of the members. -/
structure MulticastGroups where
  groups : IndexMap SocketAddr (IndexSet SocketAddr)

namespace MulticastGroups

def destinationAddresses (g : MulticastGroups) (group : SocketAddr) : List SocketAddr :=
  ((g.groups.get? group).map IndexMap.keys).getD []

def containsDestinationAddress (g : MulticastGroups) (group : IpAddr) (member : SocketAddr) : Bool :=
  ((g.groups.get? ⟨group, member.port⟩).map fun members => members.contains member).getD false

def join (g : MulticastGroups) (group : IpAddr) (member : SocketAddr) : MulticastGroups :=
  let key : SocketAddr := ⟨group, member.port⟩
  ⟨if g.groups.contains key then g.groups.modify key fun members => members.insert member ()
    else g.groups.insert key (IndexMap.empty.insert member ())⟩

/-- The group is removed with its last member. -/
def leave (g : MulticastGroups) (group : IpAddr) (member : SocketAddr) : MulticastGroups :=
  let key : SocketAddr := ⟨group, member.port⟩
  let groups := g.groups.modify key fun members => members.swapRemove member
  ⟨if ((groups.get? key).map fun members => members.keys.isEmpty).getD false then groups.swapRemove key
    else groups⟩

def leaveAll (g : MulticastGroups) (member : SocketAddr) : MulticastGroups :=
  ⟨(g.groups.mapValues fun members => members.swapRemove member).retain fun _ members =>
    !members.keys.isEmpty⟩

end MulticastGroups

/-! ## 2. The state -/

/-- The bytes of a datagram. -/
abbrev Datagram := List UInt8

structure UdpBind where
  /-- The number of the channel. -/
  channel : Nat
  bindAddr : SocketAddr
  targetAddr : Option SocketAddr
  broadcast : Bool
  multicastLoop : Bool
  queue : List (Datagram × SocketAddr)
  /-- `Rx::buffer` of the socket. -/
  buffer : Option (Datagram × SocketAddr)

/-- A host: its binds, and what the assignment of ports reads. -/
structure Host where
  binds : IndexMap UInt16 UdpBind
  capacity : Nat
  next : UInt16
  first : UInt16
  last : UInt16
  /-- The ports of the host's TCP table. -/
  tcp : List UInt16

structure Packet where
  src : SocketAddr
  dst : SocketAddr
  datagram : Datagram
  deriving DecidableEq, Repr

/-- All hosts, the groups, the packets on the links, and the tasks that hand packets over to their own
host. -/
structure World where
  hosts : IndexMap IpAddr Host
  groups : MulticastGroups
  flight : List Packet
  loops : List (IpAddr × Packet)
  /-- The number of the next channel. -/
  channels : Nat

/-- What happens to packets, and to sockets and groups. -/
inductive Event where
  | sent (p : Packet)
  | lost (p : Packet)
  /-- The host has no socket for the packet, or its channel is full. -/
  | discarded (p : Packet)
  | accepted (channel : Nat) (p : Packet)
  /-- The receiver got the datagram, of which `limit` bytes fit. -/
  | returned (channel : Nat) (datagram : Datagram) (origin : SocketAddr) (limit : Nat)
  | joined (group member : SocketAddr)
  | left (group member : SocketAddr)
  | closed (member : SocketAddr)
  deriving DecidableEq, Repr

/-- The calls that do not return. -/
inductive Panic where
  | ipVersionMismatch
  | portsExhausted
  | missingHost
  | unknownBind
  deriving DecidableEq, Repr

/-- `is_ipv4_broadcast` of the standard library: 255.255.255.255. -/
def isBroadcast (a : IpAddr) : Bool := a == .v4 0xFFFFFFFF

/-- `224.0.0.0/4` and `ff00::/8`. -/
def isMulticast : IpAddr → Bool
  | .v4 a => a >>> 28 == 14
  | .v6 a => a >>> 120 == 255

/-! ## 3. Binds -/

namespace Host

def isPortAssigned (h : Host) (port : UInt16) : Bool := h.binds.keys.any fun p => p == port

def isMulticastLoopEnabled (h : Host) (port : UInt16) : Bool :=
  ((h.binds.get? port).map UdpBind.multicastLoop).getD true

def isBroadcastEnabled (h : Host) (port : UInt16) : Bool :=
  ((h.binds.get? port).map UdpBind.broadcast).getD false

/-- `Host::assign_ephemeral_port`. -/
def assignEphemeralPort (h : Host) : Option (Host × UInt16) :=
  (Stream.World.assignLoop (fun p => h.isPortAssigned p || h.tcp.contains p) h.first h.last
    (h.last.toNat + 1 - h.first.toNat) h.next).map fun r => ({ h with next := r.2 }, r.1)

/-- A port of the range where the caller wants any. -/
def choosePort (h : Host) (port : UInt16) : Except Panic (Host × UInt16) :=
  if port = 0 then
    match h.assignEphemeralPort with
    | none => .error .portsExhausted
    | some r => .ok r
  else .ok (h, port)

/-- `Udp::bind`, with a new channel. -/
def bind (h : Host) (channel : Nat) (addr : SocketAddr) : Except NetError Host :=
  if h.binds.contains addr.port then .error .addrInUse
  else .ok { h with binds := h.binds.insert addr.port ⟨channel, addr, none, false, true, [], none⟩ }

/-- `Udp::receive_from_network`: the packet is queued for the socket at its port, or dropped. -/
def receiveFromNetwork (h : Host) (p : Packet) : Host × Event :=
  match h.binds.get? p.dst.port with
  | none => (h, .discarded p)
  | some bind =>
    if (bind.targetAddr.map fun target => matchesBind target p.src).getD true = false then
      (h, .discarded p)
    else if matchesBind bind.bindAddr p.dst = false then (h, .discarded p)
    else if bind.queue.length ≥ h.capacity then (h, .discarded p)
    else
      let bind := { bind with queue := bind.queue ++ [(p.datagram, p.src)] }
      ({ h with binds := h.binds.insert p.dst.port bind }, .accepted bind.channel p)

end Host

/-! ## 4. Receiving -/

namespace UdpBind

/-- `Rx::readable`; pending where the queue is empty. -/
def readable (b : UdpBind) : Option UdpBind :=
  match b.buffer, b.queue with
  | some _, _ => some b
  | none, [] => none
  | none, d :: queue => some { b with buffer := some d, queue := queue }

/-- `Rx::try_recv_from`, into `len` bytes: the datagram, its origin, and the number of bytes copied. -/
def tryRecvFrom (b : UdpBind) (len : Nat) :
    Except NetError (UdpBind × Datagram × SocketAddr × Nat) :=
  match b.buffer, b.queue with
  | some (d, origin), _ => .ok ({ b with buffer := none }, d, origin, min len d.length)
  | none, (d, origin) :: queue => .ok ({ b with queue := queue }, d, origin, min len d.length)
  | none, [] => .error .wouldBlock

end UdpBind

/-! ## 5. Calls -/

namespace World

def new : World := ⟨IndexMap.empty, ⟨IndexMap.empty⟩, [], [], 0⟩

/-- Change a bind. -/
def modifyBind (w : World) (h : IpAddr) (port : UInt16) (f : UdpBind → UdpBind) : World :=
  { w with hosts := w.hosts.modify h fun host => { host with binds := host.binds.modify port f } }

/-- The bind of a socket. -/
def bind? (w : World) (h : IpAddr) (port : UInt16) : Option UdpBind :=
  (w.hosts.get? h).bind fun host => host.binds.get? port

/-- `verify_ipv4_bind_interface`. -/
def verifyInterface (interface addr : IpAddr) : Except Panic (Except NetError Unit) :=
  if !interface.isUnspecified && !interface.isLoopback then .ok (.error .addrNotAvailable)
  else if interface.isIpv4 != addr.isIpv4 then .error .ipVersionMismatch
  else .ok (.ok ())

/-- `UdpSocket::bind` on host `h`; the state is as before when it is refused. -/
def bind (w : World) (h : IpAddr) (addr : SocketAddr) : Except Panic (World × Except NetError UInt16) :=
  match w.hosts.get? h with
  | none => .error .missingHost
  | some host =>
    match verifyInterface addr.ip h with
    | .error panic => .error panic
    | .ok (.error e) => .ok (w, .error e)
    | .ok (.ok ()) => do
      let (host, port) ← host.choosePort addr.port
      match host.bind w.channels ⟨addr.ip, port⟩ with
      | .error e => .ok ({ w with hosts := w.hosts.insert h host }, .error e)
      | .ok host =>
        .ok ({ w with hosts := w.hosts.insert h host, channels := w.channels + 1 }, .ok port)

/-- What UDP sees of the host's TCP: the ports of its table, and where the next assignment starts. -/
def setTcp (w : World) (h : IpAddr) (next : UInt16) (ports : List UInt16) : World :=
  { w with hosts := w.hosts.modify h fun host => { host with next := next, tcp := ports } }

/-- A port is assigned to a stream or a listener of the host. -/
def assignTcp (w : World) (h : IpAddr) : Except Panic World :=
  match w.hosts.get? h with
  | none => .error .missingHost
  | some host =>
    match host.assignEphemeralPort with
    | none => .error .portsExhausted
    | some (host, port) => .ok (w.setTcp h host.next (port :: host.tcp))

/-- `UdpSocket::connect`. -/
def connect (w : World) (h : IpAddr) (port : UInt16) (target : SocketAddr) : World :=
  w.modifyBind h port fun b => { b with targetAddr := some target }

/-- `set_broadcast`; nothing happens to a socket with an IPv6 address. -/
def setBroadcast (w : World) (h : IpAddr) (port : UInt16) (on : Bool) : World :=
  w.modifyBind h port fun b => if b.bindAddr.ip.isIpv4 then { b with broadcast := on } else b

/-- `set_multicast_loop_v4` or `_v6`; nothing happens to a socket of the other version. -/
def setMulticastLoop (w : World) (h : IpAddr) (port : UInt16) (v4 on : Bool) : World :=
  w.modifyBind h port fun b =>
    if b.bindAddr.ip.isIpv4 = v4 then { b with multicastLoop := on } else b

/-- `join_multicast_v4` or `_v6`, on an interface that is accepted. -/
def joinMulticast (w : World) (h : IpAddr) (port : UInt16) (group : IpAddr) :
    World × Except NetError Unit × List Event :=
  if isMulticast group then
    ({ w with groups := w.groups.join group ⟨h, port⟩ }, .ok (), [.joined ⟨group, port⟩ ⟨h, port⟩])
  else (w, .error .invalidInput, [])

def leaveMulticast (w : World) (h : IpAddr) (port : UInt16) (group : IpAddr) :
    World × Except NetError Unit × List Event :=
  if isMulticast group then
    if w.groups.containsDestinationAddress group ⟨h, port⟩ then
      ({ w with groups := w.groups.leave group ⟨h, port⟩ }, .ok (), [.left ⟨group, port⟩ ⟨h, port⟩])
    else (w, .error .addrNotAvailable, [])
  else (w, .error .invalidInput, [])

/-- The destructor of a socket. -/
def drop (w : World) (h : IpAddr) (port : UInt16) : World × List Event :=
  ({ w with
    groups := w.groups.leaveAll ⟨h, port⟩
    hosts := w.hosts.modify h fun host => { host with binds := host.binds.swapRemove port } },
    [.closed ⟨h, port⟩])

/-- Where one copy of a datagram goes. -/
inductive Target where
  | loopback (dst : SocketAddr)
  | network (dst : SocketAddr)
  /-- Multicast to the own host, which does not want it. -/
  | nowhere
  deriving DecidableEq, Repr

/-- The address a datagram to `dst` comes from. -/
def source (h : IpAddr) (localAddr dst : SocketAddr) : SocketAddr :=
  let ip := if dst.ip.isLoopback then dst.ip else localAddr.ip
  ⟨if ip.isUnspecified then h else ip, localAddr.port⟩

/-- The copies of `UdpSocket::send`. -/
def targets (w : World) (host : Host) (src dst : SocketAddr) :
    Except NetError (List Target) :=
  if isBroadcast dst.ip then
    if host.isBroadcastEnabled src.port then
      .ok ((w.hosts.entries.filter fun e => e.2.isPortAssigned dst.port).map fun e =>
        if src.ip = e.1 then .loopback ⟨e.1, dst.port⟩ else .network ⟨e.1, dst.port⟩)
    else .error .permissionDenied
  else if isMulticast dst.ip then
    .ok ((w.groups.destinationAddresses dst).map fun member =>
      if src.ip = member.ip then
        if host.isMulticastLoopEnabled member.port then .loopback member else .nowhere
      else .network member)
  else if isSame src dst then .ok [.loopback dst]
  else .ok [.network dst]

/-- Send the copies, up to the first one that has no link. -/
def emit (h : IpAddr) (src : SocketAddr) (datagram : Datagram) :
    List Target → World → World × Except NetError Unit × List Event
  | [], w => (w, .ok (), [])
  | .nowhere :: ts, w => emit h src datagram ts w
  | .loopback dst :: ts, w =>
    let r := emit h src datagram ts { w with loops := w.loops ++ [(h, ⟨src, dst, datagram⟩)] }
    (r.1, r.2.1, .sent ⟨src, dst, datagram⟩ :: r.2.2)
  | .network dst :: ts, w =>
    if w.hosts.contains src.ip && w.hosts.contains dst.ip then
      let r := emit h src datagram ts { w with flight := w.flight ++ [⟨src, dst, datagram⟩] }
      (r.1, r.2.1, .sent ⟨src, dst, datagram⟩ :: r.2.2)
    else (w, .error .connectionRefused, [])

/-- `UdpSocket::send`. -/
def send (w : World) (h : IpAddr) (port : UInt16) (dst : SocketAddr) (datagram : Datagram) :
    World × Except NetError Unit × List Event :=
  match w.hosts.get? h, w.bind? h port with
  | some host, some b =>
    let src := source h b.bindAddr dst
    match w.targets host src dst with
    | .error e => (w, .error e, [])
    | .ok ts => emit h src datagram ts w
  | _, _ => (w, .ok (), [])

/-- A packet is handed over to a host. -/
def receive (w : World) (h : IpAddr) (p : Packet) : World × List Event :=
  match w.hosts.get? h with
  | none => (w, [.lost p])
  | some host =>
    let r := host.receiveFromNetwork p
    ({ w with hosts := w.hosts.modify h fun _ => r.1 }, [r.2])

end World

/-! ## 6. Steps -/

/-- Something that happens.  A host is added; its TCP takes a port of the range, or has other ports than
before; a socket of a host is used; a packet on a link, or in a task, arrives or is lost. -/
inductive Op where
  | host (h : IpAddr) (capacity : Nat) (first last : UInt16)
  | assignTcp (h : IpAddr)
  | tcpPorts (h : IpAddr) (ports : List UInt16)
  | bind (h : IpAddr) (addr : SocketAddr)
  | connect (h : IpAddr) (port : UInt16) (target : SocketAddr)
  | setBroadcast (h : IpAddr) (port : UInt16) (on : Bool)
  | setMulticastLoop (h : IpAddr) (port : UInt16) (v4 on : Bool)
  | joinMulticast (h : IpAddr) (port : UInt16) (group : IpAddr)
  | leaveMulticast (h : IpAddr) (port : UInt16) (group : IpAddr)
  | drop (h : IpAddr) (port : UInt16)
  | send (h : IpAddr) (port : UInt16) (dst : SocketAddr) (datagram : Datagram)
  | deliver (i : Nat)
  | lose (i : Nat)
  | deliverLoop (i : Nat)
  | cancelLoop (i : Nat)
  | readable (h : IpAddr) (port : UInt16)
  | tryRecvFrom (h : IpAddr) (port : UInt16) (len : Nat)
  deriving Repr

namespace World

/-- Does the step use a socket that is there? -/
def live (w : World) (h : IpAddr) (port : UInt16) : Bool := (w.bind? h port).isSome

/-- A step, and what happens.  A call on a socket that is not there cannot be made: nothing happens. -/
def step (w : World) : Op → Except Panic (World × List Event)
  | .host h capacity first last =>
    .ok (if w.hosts.contains h then w
      else { w with hosts := w.hosts.insert h ⟨IndexMap.empty, capacity, first, first, last, []⟩ }, [])
  | .assignTcp h => (w.assignTcp h).map fun w => (w, [])
  | .tcpPorts h ports =>
    match w.hosts.get? h with
    | none => .ok (w, [])
    | some host => .ok (w.setTcp h host.next ports, [])
  | .bind h addr => (w.bind h addr).map fun r => (r.1, [])
  | .connect h port target => .ok (w.connect h port target, [])
  | .setBroadcast h port on => .ok (w.setBroadcast h port on, [])
  | .setMulticastLoop h port v4 on => .ok (w.setMulticastLoop h port v4 on, [])
  | .joinMulticast h port group =>
    if w.live h port then let r := w.joinMulticast h port group; .ok (r.1, r.2.2) else .ok (w, [])
  | .leaveMulticast h port group =>
    if w.live h port then let r := w.leaveMulticast h port group; .ok (r.1, r.2.2) else .ok (w, [])
  | .drop h port => if w.live h port then .ok (w.drop h port) else .ok (w, [])
  | .send h port dst datagram => let r := w.send h port dst datagram; .ok (r.1, r.2.2)
  | .deliver i =>
    match w.flight[i]? with
    | none => .ok (w, [])
    | some p => .ok (({ w with flight := w.flight.eraseIdx i }).receive p.dst.ip p)
  | .lose i =>
    match w.flight[i]? with
    | none => .ok (w, [])
    | some p => .ok ({ w with flight := w.flight.eraseIdx i }, [.lost p])
  | .deliverLoop i =>
    match w.loops[i]? with
    | none => .ok (w, [])
    | some (h, p) => .ok (({ w with loops := w.loops.eraseIdx i }).receive h p)
  | .cancelLoop i =>
    match w.loops[i]? with
    | none => .ok (w, [])
    | some (_, p) => .ok ({ w with loops := w.loops.eraseIdx i }, [.lost p])
  | .readable h port =>
    match (w.bind? h port).bind UdpBind.readable with
    | none => .ok (w, [])
    | some b => .ok (w.modifyBind h port fun _ => b, [])
  | .tryRecvFrom h port len =>
    match w.bind? h port with
    | none => .ok (w, [])
    | some b =>
      match b.tryRecvFrom len with
      | .error _ => .ok (w, [])
      | .ok (b', d, origin, limit) =>
        .ok (w.modifyBind h port fun _ => b', [.returned b.channel d origin limit])

/-- The world after a list of steps, and all that happened. -/
def run (w : World) : List Op → Except Panic (World × List Event)
  | [] => .ok (w, [])
  | op :: ops => do
    let (w, first) ← w.step op
    let (w, rest) ← w.run ops
    .ok (w, first ++ rest)

end World

end Turmoil.Udp
