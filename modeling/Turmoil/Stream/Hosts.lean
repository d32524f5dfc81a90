/-
# Streams on several hosts

A host finds the `StreamSocket` of a stream by its pair of addresses, and by nothing else.  The two
halves of a stream keep the pair, and so does every segment under way; both can outlive the socket,
because a RST takes it out of the table at once.  A later connection may then get the same pair.

`World` is the tables of all hosts together with everything that refers to them: the segments under
way, the SYNs that wait to be accepted, the `connect` calls that wait for an answer, and the halves.
Every one of them carries the connection it belongs to, which no function reads: it is there to say
which connection a step acts for.  (A SYN does name its connection, by the channel for the answer.)
-/
import Turmoil.Stream.Connection
import Turmoil.Net.Packet

namespace Turmoil.Stream

open Turmoil.Net (IpAddr SocketAddr)

/-! ## 1. Addresses -/

structure SocketPair where
  loc : SocketAddr
  rem : SocketAddr
  deriving DecidableEq, Repr

def SocketPair.flip (p : SocketPair) : SocketPair := ⟨p.rem, p.loc⟩

/-- A place for a socket: a host, and a pair of addresses as that host sees it. -/
abbrev Place := IpAddr × SocketPair

/-- `matches`: can this bind address take a packet for `dst`? -/
def matchesBind (bind dst : SocketAddr) : Bool :=
  (bind.ip.isUnspecified && bind.port == dst.port) || bind == dst

/-- `is_same`: is this loopback? -/
def isSame (src dst : SocketAddr) : Bool := dst.ip.isLoopback || src.ip == dst.ip

/-- The host that gets what host `h` sends from `src` to `dst`. -/
def route (h : IpAddr) (src dst : SocketAddr) : IpAddr := if isSame src dst then h else dst.ip

/-- A connection: a number of its own, the pair the client made up, and the two hosts. -/
structure Conn where
  id : Nat
  client : IpAddr
  pair : SocketPair
  server : IpAddr
  deriving DecidableEq, Repr

def Conn.place (c : Conn) : Side → Place
  | .client => (c.client, c.pair)
  | .server => (c.server, c.pair.flip)

/-! ## 2. The state -/

inductive Segment where
  | syn
  | data (seq : Nat) (bytes : Bytes)
  | fin (seq : Nat)
  | rst
  deriving DecidableEq, Repr

/-- A segment under way to `host`, sent by one side of its connection. -/
structure Envelope where
  host : IpAddr
  src : SocketAddr
  dst : SocketAddr
  segment : Segment
  conn : Conn
  side : Side
  deriving DecidableEq, Repr

/-- The SYNs of a listener that wait to be accepted, with their origins. -/
structure ServerSocket where
  bindAddr : SocketAddr
  deque : List (Conn × SocketAddr)

/-- A socket in the table.  `stream` names the channel and the flow control that `new_stream` made
for it. -/
structure Slot where
  socket : StreamSocket
  stream : Nat
  conn : Conn
  side : Side

/-- A `connect` that waits for the answer to its SYN. -/
structure Connecting where
  place : Place
  stream : Nat
  acked : Bool
  conn : Conn

/-- One direction of the flow control that a stream made: what the stream itself writes, or what it
reads. -/
structure FlowId where
  stream : Nat
  write : Bool
  deriving DecidableEq, Repr

structure ReadHalf where
  place : Place
  rx : Rx
  stream : Nat
  flow : FlowId
  conn : Conn
  side : Side

structure WriteHalf where
  place : Place
  isShutdown : Bool
  flow : FlowId
  conn : Conn
  side : Side

/-- What a host knows about its ports; the UDP binds take part in their assignment. -/
structure Ports where
  next : UInt16
  first : UInt16
  last : UInt16
  udp : List UInt16

/-- The hosts, and all that refers to their sockets.  The tables `binds` and `sockets` of every
host are one table each, by host. -/
structure World where
  hosts : IndexMap IpAddr Ports
  binds : IndexMap (IpAddr × UInt16) ServerSocket
  sockets : IndexMap Place Slot
  /-- `server_socket_capacity` and `socket_capacity`. -/
  capacity : Nat
  net : List Envelope
  connecting : List Connecting
  readers : List ReadHalf
  writers : List WriteHalf
  channels : Nat → Channel
  credits : FlowId → Nat
  /-- The number of the next stream. -/
  next : Nat

/-- Hosts that all assign the ports `first` to `last`. -/
def World.new (addrs : List IpAddr) (first last : UInt16) (capacity : Nat) : World where
  hosts := addrs.foldl (fun m a => m.insert a ⟨first, first, last, []⟩) IndexMap.empty
  binds := IndexMap.empty
  sockets := IndexMap.empty
  capacity := capacity
  net := []
  connecting := []
  readers := []
  writers := []
  channels := fun _ => Channel.new capacity
  credits := fun _ => capacity
  next := 0

/-- The calls that do not return. -/
inductive Panic where
  | alreadyConnected
  | duplicateSegment
  | missingStreamSocket
  | clientHostMissing
  | portsExhausted
  | serverSocketBufferFull
  | ipVersionMismatch
  deriving DecidableEq, Repr

namespace World

/-! ## 3. The table of a host -/

def isPortAssigned (w : World) (h : IpAddr) (port : UInt16) : Bool :=
  w.binds.keys.any (fun k => k.1 == h && k.2 == port)
    || w.sockets.keys.any (fun e => e.1 == h && e.2.loc.port == port)

/-- The turns of `assign_ephemeral_port`: the port, and where the next search starts. -/
def assignLoop (assigned : UInt16 → Bool) (first last : UInt16) :
    Nat → UInt16 → Option (UInt16 × UInt16)
  | 0, _ => none
  | fuel + 1, port =>
    let next := if port = last then first else port + 1
    if assigned port then assignLoop assigned first last fuel next else some (port, next)

def assignEphemeralPort (w : World) (h : IpAddr) (ports : Ports) :
    Except Panic (World × UInt16) :=
  match assignLoop (fun p => ports.udp.contains p || w.isPortAssigned h p) ports.first ports.last
      (ports.last.toNat + 1 - ports.first.toNat) ports.next with
  | none => .error .portsExhausted
  | some (port, next) => .ok ({ w with hosts := w.hosts.insert h { ports with next := next } }, port)

/-- `Tcp::new_stream`: a socket with a channel and a flow control of its own. -/
def newStream (w : World) (place : Place) (conn : Conn) (side : Side) : Except Panic World :=
  if w.sockets.contains place then .error .alreadyConnected
  else .ok { w with
    sockets := w.sockets.insert place ⟨StreamSocket.new, w.next, conn, side⟩
    channels := Function.update w.channels w.next (Channel.new w.capacity)
    credits := fun f => if f.stream = w.next then w.capacity else w.credits f
    next := w.next + 1 }

def assignSendSeq (w : World) (place : Place) : Option (World × Nat) :=
  (w.sockets.get? place).map fun slot =>
    let (socket, seq) := slot.socket.assignSeq
    ({ w with sockets := w.sockets.insert place { slot with socket := socket } }, seq)

def streamState (w : World) (place : Place) : StreamState :=
  match w.sockets.get? place with
  | some slot => slot.socket.state
  | none => .reset

def hasBufferedData (w : World) (place : Place) : Bool :=
  match w.sockets.get? place with
  | some slot => slot.socket.hasBufferedData
  | none => false

def resetStream (w : World) (place : Place) : World :=
  { w with sockets := w.sockets.swapRemove place }

def closeStreamHalf (w : World) (place : Place) : World :=
  match w.sockets.get? place with
  | none => w
  | some slot =>
    let socket := { slot.socket with refCt := slot.socket.refCt - 1 }
    if socket.refCt = 0 then w.resetStream place
    else { w with sockets := w.sockets.insert place { slot with socket := socket } }

/-- `send_message` or `send_loopback`; nothing where there is no link. -/
def send (w : World) (h : IpAddr) (src dst : SocketAddr) (segment : Segment) (conn : Conn)
    (side : Side) : Option World :=
  if isSame src dst || w.hosts.contains dst.ip then
    some { w with net := w.net ++ [⟨route h src dst, src, dst, segment, conn, side⟩] }
  else none

/-- What a half sends to the other side. -/
def sendFrom (w : World) (place : Place) (segment : Segment) (conn : Conn) (side : Side) :
    Option World :=
  w.send place.1 place.2.loc place.2.rem segment conn side

/-- A channel whose receiver is dropped. -/
def dropReceiver (w : World) (stream : Nat) : World :=
  let channel := { w.channels stream with receiver := false }
  { w with channels := Function.update w.channels stream channel }

/-! ## 4. Listeners -/

/-- `TcpListener::bind`; nothing happens when it is refused. -/
def bind (w : World) (h : IpAddr) (addr : SocketAddr) : Except Panic World :=
  match w.hosts.get? h with
  | none => .ok w
  | some ports =>
    if !addr.ip.isUnspecified && !addr.ip.isLoopback then .ok w
    else if addr.ip.isIpv4 != h.isIpv4 then .error .ipVersionMismatch
    else do
      let (w, port) ← if addr.port = 0 then w.assignEphemeralPort h ports else .ok (w, addr.port)
      if w.binds.contains (h, port) then pure w
      else pure { w with binds := w.binds.insert (h, port) ⟨⟨addr.ip, port⟩, []⟩ }

/-- The destructor of a listener: the SYNs it holds are gone. -/
def unbind (w : World) (h : IpAddr) (port : UInt16) : World :=
  { w with binds := w.binds.swapRemove (h, port) }

/-- The address a listener of host `h` answers `origin` from. -/
def myAddr (h : IpAddr) (bindAddr origin : SocketAddr) : SocketAddr :=
  let ip := if origin.ip.isLoopback then origin.ip else bindAddr.ip
  ⟨if ip.isUnspecified then h else ip, bindAddr.port⟩

/-- The two halves of a stream, with the flow control it writes and reads under. -/
def openHalves (w : World) (place : Place) (stream : Nat) (write read : FlowId) (conn : Conn)
    (side : Side) : World :=
  { w with
    readers := w.readers ++ [⟨place, Rx.new, stream, read, conn, side⟩]
    writers := w.writers ++ [⟨place, false, write, conn, side⟩] }

/-- `syn.ack.send(())`: it fails when the `connect` is gone. -/
def ackSyn (w : World) (conn : Conn) : Option World :=
  let ack (c : Connecting) : Connecting := if c.conn = conn then { c with acked := true } else c
  if w.connecting.any fun c => c.conn == conn && !c.acked then
    some { w with connecting := w.connecting.map ack }
  else none

/-- A turn of the loop of `TcpListener::accept`: the next SYN, answered if its `connect` still
waits, and then the stream. -/
def accept (w : World) (h : IpAddr) (port : UInt16) : Except Panic World :=
  match w.binds.get? (h, port) with
  | none => .ok w
  | some sock =>
    match sock.deque with
    | [] => .ok w
    | (conn, origin) :: rest =>
      let w := { w with binds := w.binds.insert (h, port) { sock with deque := rest } }
      match w.ackSyn conn with
      | none => .ok w
      | some w => do
        let pair : SocketPair := ⟨myAddr h sock.bindAddr origin, origin⟩
        let stream := w.next
        let w ← w.newStream (h, pair) conn .server
        let clientIp := if origin.ip.isLoopback then h else origin.ip
        if !w.hosts.contains clientIp then .error .clientHostMissing
        else match w.sockets.get? (clientIp, ⟨origin, pair.loc⟩) with
          | none => .error .missingStreamSocket
          | some client =>
            -- the flow control of the client's stream, inverted
            pure (w.openHalves (h, pair) stream ⟨client.stream, false⟩ ⟨client.stream, true⟩ conn
              .server)

/-! ## 5. Connecting -/

/-- The pair `TcpStream::connect` would make up. -/
def dial (w : World) (h : IpAddr) (dst : SocketAddr) (ports : Ports) :
    Except Panic (World × SocketPair) := do
  let (w, port) ← w.assignEphemeralPort h ports
  pure (w, ⟨⟨if dst.ip.isLoopback then dst.ip else h, port⟩, dst⟩)

/-- The connection that is about to be opened. -/
def opening (w : World) (h : IpAddr) (pair : SocketPair) : Conn :=
  ⟨w.next, h, pair, route h pair.loc pair.rem⟩

/-- `TcpStream::connect`, up to its SYN. -/
def connect (w : World) (h : IpAddr) (dst : SocketAddr) : Except Panic World :=
  match w.hosts.get? h with
  | none => .ok w
  | some ports => do
    let (w, pair) ← w.dial h dst ports
    let conn := w.opening h pair
    let stream := w.next
    let w ← w.newStream (h, pair) conn .client
    match w.sendFrom (h, pair) .syn conn .client with
    | none => pure (w.dropReceiver stream)
    | some w => pure { w with connecting := w.connecting ++ [⟨(h, pair), stream, false, conn⟩] }

/-- A `connect` sees its answer and returns the stream. -/
def connected (w : World) (i : Nat) : World :=
  match w.connecting[i]? with
  | none => w
  | some c =>
    if c.acked then
      { w with connecting := w.connecting.eraseIdx i }.openHalves c.place c.stream
        ⟨c.stream, true⟩ ⟨c.stream, false⟩ c.conn .client
    else w

/-- A `connect` is dropped, or fails because its SYN is gone. -/
def cancel (w : World) (i : Nat) : World :=
  match w.connecting[i]? with
  | none => w
  | some c => { w with connecting := w.connecting.eraseIdx i }.dropReceiver c.stream

/-! ## 6. The write half -/

/-- `WriteHalf::try_write`. -/
def tryWrite (w : World) (i : Nat) (buf : Bytes) : World :=
  match w.writers[i]? with
  | none => w
  | some half =>
    if half.isShutdown || buf.isEmpty || w.streamState half.place == .reset
        || w.credits half.flow == 0 then w
    else
      let w := { w with
        credits := Function.update w.credits half.flow (w.credits half.flow - 1) }
      match w.assignSendSeq half.place with
      | none => w
      | some (w, seq) =>
        (w.sendFrom half.place (.data seq buf) half.conn half.side).getD w

/-- `WriteHalf::poll_shutdown_priv`. -/
def pollShutdown (w : World) (i : Nat) : World :=
  match w.writers[i]? with
  | none => w
  | some half =>
    if half.isShutdown then w
    else
      match w.assignSendSeq half.place with
      | none => w
      | some (w, seq) =>
        match w.sendFrom half.place (.fin seq) half.conn half.side with
        | none => w
        | some w => { w with writers := w.writers.set i { half with isShutdown := true } }

/-- The destructor of the write half. -/
def dropWriteHalf (w : World) (i : Nat) : World :=
  match w.writers[i]? with
  | none => w
  | some half =>
    let w := { w with writers := w.writers.eraseIdx i }
    let w :=
      if half.isShutdown then w
      else
        match w.assignSendSeq half.place with
        | none => w
        | some (w, seq) => (w.sendFrom half.place (.fin seq) half.conn half.side).getD w
    w.closeStreamHalf half.place

/-! ## 7. The read half -/

/-- Does the socket this half was made with still hold the sending end of its channel? -/
def held (w : World) (half : ReadHalf) : Bool :=
  match w.sockets.get? half.place with
  | some slot => slot.stream == half.stream && slot.socket.sender
  | none => false

inductive ReadCall where
  | pollRead (filled remaining : Nat)
  | tryReadVectored (bufs : List Nat)
  | pollPeek (filled remaining : Nat)
  | pollReadReady

/-- The reads of `ReadHalf`. -/
def ReadCall.perform (call : ReadCall) (r : Reader) (held : Bool) (state : StreamState) : Reader :=
  match call with
  | .pollRead filled remaining => (r.pollRead held state filled remaining).1
  | .tryReadVectored bufs => (r.tryReadVectored held state bufs).1
  | .pollPeek filled remaining => (r.pollPeek held state filled remaining).1
  | .pollReadReady => (r.pollFill held state).1

def read (w : World) (i : Nat) (call : ReadCall) : World :=
  match w.readers[i]? with
  | none => w
  | some half =>
    let r := call.perform ⟨half.rx, w.channels half.stream, w.credits half.flow⟩ (w.held half)
      (w.streamState half.place)
    { w with
      readers := w.readers.set i { half with rx := r.rx }
      channels := Function.update w.channels half.stream r.channel
      credits := Function.update w.credits half.flow r.credits }

/-- The destructor of the read half. -/
def dropReadHalf (w : World) (i : Nat) : World :=
  match w.readers[i]? with
  | none => w
  | some half =>
    let hasUnread := !half.rx.isClosed && (half.rx.buffer.isSome
      || !(w.channels half.stream).queue.isEmpty || w.hasBufferedData half.place)
    let w := { w with readers := w.readers.eraseIdx i }.dropReceiver half.stream
    if hasUnread then
      ((w.sendFrom half.place .rst half.conn half.side).getD w).resetStream half.place
    else w.closeStreamHalf half.place

/-! ## 8. The network -/

/-- A numbered segment for the socket at `place`; the answer is whether a RST goes back. -/
def buffer (w : World) (place : Place) (seq : Nat) (segment : SequencedSegment) :
    Except Panic (World × Bool) :=
  match w.sockets.get? place with
  | none => .ok (w, true)
  | some slot =>
    match slot.socket.buffer (w.channels slot.stream) seq segment with
    | none => .error .duplicateSegment
    | some (socket, channel, outcome) =>
      .ok ({ w with
        sockets := w.sockets.insert place { slot with socket := socket }
        channels := Function.update w.channels slot.stream channel }, outcome == .rst)

/-- `Tcp::receive_from_network`. -/
def receive (w : World) (e : Envelope) : Except Panic (World × Bool) :=
  let place : Place := (e.host, ⟨e.dst, e.src⟩)
  match e.segment with
  | .syn =>
    match w.binds.get? (e.host, e.dst.port) with
    | none => .ok (w, false)
    | some sock =>
      if sock.deque.length = w.capacity then .error .serverSocketBufferFull
      else if matchesBind sock.bindAddr e.dst then
        let sock := { sock with deque := sock.deque ++ [(e.conn, e.src)] }
        .ok ({ w with binds := w.binds.insert (e.host, e.dst.port) sock }, false)
      else .ok (w, false)
  | .data seq bytes => w.buffer place seq (.data bytes)
  | .fin seq => w.buffer place seq .fin
  | .rst => .ok (w.resetStream place, false)

/-- The network delivers the `i`-th envelope.  A RST in answer crosses the network, or on one host
takes effect at once. -/
def deliver (w : World) (i : Nat) : Except Panic World :=
  match w.net[i]? with
  | none => .ok w
  | some e => do
    let (w, rst) ← { w with net := w.net.eraseIdx i }.receive e
    if !rst then pure w
    else if isSame e.src e.dst then pure (w.resetStream (e.host, ⟨e.src, e.dst⟩))
    else pure ((w.send e.host e.dst e.src .rst e.conn e.side.other).getD w)

/-- The network loses an envelope. -/
def lose (w : World) (i : Nat) : World := { w with net := w.net.eraseIdx i }

/-- UDP sockets come and go. -/
def setUdp (w : World) (h : IpAddr) (udp : List UInt16) : World :=
  { w with hosts := w.hosts.modify h fun ports => { ports with udp := udp } }

/-! ## 9. Runs -/

inductive Op where
  | bind (h : IpAddr) (addr : SocketAddr)
  | unbind (h : IpAddr) (port : UInt16)
  | setUdp (h : IpAddr) (udp : List UInt16)
  | accept (h : IpAddr) (port : UInt16)
  | connect (h : IpAddr) (dst : SocketAddr)
  | connected (i : Nat)
  | cancel (i : Nat)
  | tryWrite (i : Nat) (buf : Bytes)
  | pollShutdown (i : Nat)
  | dropWriteHalf (i : Nat)
  | read (i : Nat) (call : ReadCall)
  | dropReadHalf (i : Nat)
  | deliver (i : Nat)
  | lose (i : Nat)

def step (w : World) : Op → Except Panic World
  | .bind h addr => w.bind h addr
  | .unbind h port => .ok (w.unbind h port)
  | .setUdp h udp => .ok (w.setUdp h udp)
  | .accept h port => w.accept h port
  | .connect h dst => w.connect h dst
  | .connected i => .ok (w.connected i)
  | .cancel i => .ok (w.cancel i)
  | .tryWrite i buf => .ok (w.tryWrite i buf)
  | .pollShutdown i => .ok (w.pollShutdown i)
  | .dropWriteHalf i => .ok (w.dropWriteHalf i)
  | .read i call => .ok (w.read i call)
  | .dropReadHalf i => .ok (w.dropReadHalf i)
  | .deliver i => w.deliver i
  | .lose i => .ok (w.lose i)

def run (w : World) : List Op → Except Panic World
  | [] => .ok w
  | op :: ops => do
    let w ← w.step op
    run w ops

end World

end Turmoil.Stream
