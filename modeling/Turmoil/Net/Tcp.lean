/-
# TCP

The functions of `kernel/tcp.rs` on a whole kernel.  Each looks the control block up, applies the
corresponding function of `Net.Tcb`, and queues what is to be sent.  Waking parked tasks is left
out.
-/
import Turmoil.Net.Kernel
import Turmoil.Net.Tcb

namespace Turmoil.Net

/-! ## 1. Endpoints -/

/-- `bound_endpoint`. -/
def boundEndpoint (st : Socket) : Except Panic SocketAddr := do
  let bind ← expect st.bound "bound at handshake time"
  pure ⟨bind.localAddr, bind.localPort⟩

namespace Kernel

/-- `find(|a| a.is_ipv4() == ip.is_ipv4())` over the host's addresses. -/
def addressLike (k : Kernel) (ip : IpAddr) : Option IpAddr :=
  k.addresses.find? fun a => a.isIpv4 == ip.isIpv4

def localEndpoint (k : Kernel) (fd : Fd) : Except Panic SocketAddr := do
  let st ← expect (k.lookup fd) "lookup"
  let bind ← expect st.bound "fd bound by now"
  let ip :=
    if bind.localAddr.isUnspecified then
      match st.tcb.map (·.peer.ip) with
      | some p =>
        if p.isLoopback then p.localhostLike else (k.addressLike p).getD bind.localAddr
      | none => bind.localAddr
    else bind.localAddr
  pure ⟨ip, bind.localPort⟩

/-- The address a socket is bound to when it first talks to `dst`. -/
def autoBindAddress (k : Kernel) (dst : IpAddr) : Except NetError IpAddr :=
  if dst.isLoopback then .ok dst.localhostLike
  else
    match k.addressLike dst with
    | some a => .ok a
    | none => .error .addrNotAvailable

/-- `auto_bind`, of TCP (`stream`) and of UDP. -/
def autoBind (k : Kernel) (fd : Fd) (domain : Domain) (ty : SockType) (dst : IpAddr) :
    Except Panic (Kernel × Except NetError BindKey) := do
  match k.autoBindAddress dst with
  | .error e => pure (k, .error e)
  | .ok localIp =>
    let (sockets, port) ← k.sockets.allocatePort domain ty
    let k := { k with sockets := sockets }
    match port with
    | none => pure (k, .error .addrInUse)
    | some port =>
      let key : BindKey := ⟨domain, ty, localIp, port⟩
      let k := { k with sockets := k.sockets.insertBinding key fd }
      let _ ← expect (k.lookup fd) "fd present"
      pure (k.modifySocket fd fun st => { st with bound := some key }, .ok key)

/-- Bind a socket unless it is bound. -/
def ensureBound (k : Kernel) (fd : Fd) (st : Socket) (ty : SockType) (dst : IpAddr) :
    Except Panic (Kernel × Except NetError BindKey) :=
  match st.bound with
  | some key => .ok (k, .ok key)
  | none => k.autoBind fd st.domain ty dst

/-- `initial_sequence`. -/
def initialSequence (k : Kernel) : Kernel × UInt32 :=
  ({ k with tcpIsn := k.tcpIsn + 0x10000 }, k.tcpIsn)

/-- `mss_for`. -/
def mssFor (k : Kernel) (src : IpAddr) : Nat :=
  (if src.isLoopback then k.cfg.loopbackMtu else k.cfg.mtu) - src.headerSize - tcpHeaderSize

def emitAll (k : Kernel) (src dst : SocketAddr) (segs : List TcpSegment) : Kernel :=
  segs.foldl (fun k seg => k.emit src dst seg) k

/-! ## 2. Connecting -/

/-- What a poll of a connection in progress reports. -/
def connectStatus (tcb : Tcb) : Poll (Except NetError Unit) :=
  match tcb.state with
  | .established => .ready (.ok ())
  | .synSent | .synReceived => .pending
  | _ => if tcb.timedOut then .ready (.error .timedOut) else .ready (.error .connectionRefused)

/-- The first poll: the control block, the index entry and the SYN. -/
def startConnect (k : Kernel) (fd : Fd) (peer : SocketAddr) : Except Panic Kernel := do
  let src ← k.localEndpoint fd
  let (k, isn) := k.initialSequence
  let _ ← expect (k.lookup fd) "fd validated"
  let k := k.modifySocket fd fun st =>
    { st with tcb := some (Tcb.fresh .synSent peer isn defaultWindow 0), peer := some peer }
  let sockets ← k.sockets.insertConnection src peer fd
  let k := { k with sockets := sockets }
  pure (k.emit src peer ⟨src.port, peer.port, isn, 0, { syn := true }, defaultWindow, []⟩)

/-- `tcp::poll_connect`. -/
def tcpPollConnect (k : Kernel) (fd : Fd) (peer : SocketAddr) :
    Except Panic (Kernel × Poll (Except NetError Unit)) := do
  let st ← expect (k.lookup fd) "fd validated"
  match st.tcb with
  | some tcb => pure (k, connectStatus tcb)
  | none =>
    let (k, bound) ← k.ensureBound fd st .stream peer.ip
    match bound with
    | .error e => pure (k, .ready (.error e))
    | .ok _ =>
      let k ← k.startConnect fd peer
      pure (k, .pending)

/-! ## 3. Inbound segments -/

/-- `emit_rst`: answer a segment that belongs to no connection. -/
def emitRst (k : Kernel) (loc rem : SocketAddr) (s : TcpSegment) : Kernel :=
  let (seq, ack, ackFlag) :=
    if s.flags.ack then (s.ack, 0, false)
    else
      let segLen := UInt32.ofNat s.payload.length + (if s.flags.syn then 1 else 0)
        + (if s.flags.fin then 1 else 0)
      (0, s.seq + segLen, true)
  k.emit loc rem ⟨loc.port, rem.port, seq, ack, { rst := true, ack := ackFlag }, 0, []⟩

/-- `abort_with`. -/
def abortWith (k : Kernel) (fd : Fd) (reason : AbortReason) : Except Panic Kernel := do
  let _ ← expect (k.lookup fd) "unwrap"
  pure (k.modifySocket fd fun st => { st with tcb := st.tcb.map (·.abort reason) })

/-- `find_listener`: a listening socket bound to the address, or to the wildcard. -/
def findListener (k : Kernel) (loc : SocketAddr) : Except Panic (Option Fd) := do
  let domain := if loc.ip.isIpv4 then Domain.inet else Domain.inet6
  let exact : BindKey := ⟨domain, .stream, loc.ip, loc.port⟩
  let wildcard : BindKey := ⟨domain, .stream, loc.ip.unspecifiedLike, loc.port⟩
  firstListener (k.sockets.findByBind exact ++ k.sockets.findByBind wildcard)
where
  firstListener : List Fd → Except Panic (Option Fd)
  | [] => pure none
  | fd :: fds => do
    let st ← expect (k.lookup fd) "unwrap"
    if st.listen.isSome then pure (some fd) else firstListener fds

/-- `count_children`: connections of the listener's tuple that are still in the handshake. -/
def countChildren (k : Kernel) (listenerFd : Fd) (loc : SocketAddr) : Nat :=
  ((k.sockets.connectionsOn loc).filter fun (_, fd) =>
    fd != listenerFd && match k.tcb? fd with
      | some t => t.state == .synReceived
      | none => false).length

/-- `accept_syn`. -/
def acceptSyn (k : Kernel) (listenerFd : Fd) (loc rem : SocketAddr) (s : TcpSegment) :
    Except Panic Kernel := do
  let st ← expect (k.lookup listenerFd) "listener present"
  let listen ← expect st.listen "listener has ListenState"
  if k.countChildren listenerFd loc + listen.ready.length ≥ listen.backlog then pure k
  else
    let (sockets, child) := k.sockets.insert (Socket.new st.domain st.ty)
    let key : BindKey := ⟨st.domain, st.ty, loc.ip, loc.port⟩
    let k := { k with sockets := sockets.insertBinding key child }
    let (k, isn) := k.initialSequence
    let _ ← expect (k.lookup child) "unwrap"
    let k := k.modifySocket child fun c =>
      { c with
        bound := some key
        peer := some rem
        tcb := some (Tcb.fresh .synReceived rem isn s.window (s.seq + 1)) }
    let sockets ← k.sockets.insertConnection loc rem child
    let k := { k with sockets := sockets }
    pure (k.emit loc rem
      ⟨loc.port, rem.port, isn, s.seq + 1, { syn := true, ack := true }, defaultWindow, []⟩)

/-- `push_to_listener`. -/
def pushToListener (k : Kernel) (child : Fd) (loc : SocketAddr) : Except Panic Kernel := do
  match ← k.findListener loc with
  | none => pure k
  | some listenerFd =>
    let st ← expect (k.lookup listenerFd) "unwrap"
    let _ ← expect st.listen "listener"
    pure (k.modifySocket listenerFd fun st =>
      { st with listen := st.listen.map fun l => { l with ready := l.ready ++ [child] } })

/-- `handle_established`. -/
def handleEstablished (k : Kernel) (fd : Fd) (loc rem : SocketAddr) (tcb : Tcb) (s : TcpSegment) :
    Except Panic Kernel := do
  let (tcb, sendAck) ← tcb.handleEstablished k.cfg.recvBufCap s
  let k := k.setTcb fd tcb
  pure (if sendAck then k.emit loc rem (tcb.ackSegment k.cfg.recvBufCap loc rem) else k)

/-- `handle_on_connection`. -/
def handleOnConnection (k : Kernel) (fd : Fd) (loc rem : SocketAddr) (s : TcpSegment) :
    Except Panic Kernel := do
  if s.flags.rst then k.abortWith fd .reset
  else
    let st ← expect (k.lookup fd) "fd present"
    let tcb ← expect st.tcb "tcb present"
    match tcb.state with
    | .synSent =>
      if s.flags.syn && s.flags.ack then
        let tcb := tcb.onSynAck s
        let k := k.setTcb fd tcb
        pure (k.emit loc rem
          ⟨loc.port, rem.port, tcb.sndNxt, tcb.rcvNxt, { ack := true },
            advertisedWindow k.cfg.recvBufCap 0, []⟩)
      else pure k
    | .synReceived =>
      if s.flags.ack && !s.flags.syn then
        if s.ack != tcb.sndNxt then pure k
        else (k.setTcb fd (tcb.onHandshakeAck s)).pushToListener fd loc
      else pure k
    | .established | .finWait1 | .finWait2 | .closeWait | .closing | .lastAck =>
      k.handleEstablished fd loc rem tcb s
    | .closed => pure k

/-- `tcp::deliver`. -/
def tcpDeliver (k : Kernel) (pkt : Packet) (s : TcpSegment) : Except Panic Kernel := do
  let loc : SocketAddr := ⟨pkt.dst, s.dstPort⟩
  let rem : SocketAddr := ⟨pkt.src, s.srcPort⟩
  match k.sockets.findConnection loc rem with
  | some fd => k.handleOnConnection fd loc rem s
  | none =>
    if s.flags.syn && !s.flags.ack then
      match ← k.findListener loc with
      | some listener => k.acceptSyn listener loc rem s
      | none => pure (k.emitRst loc rem s)
    else pure (if s.flags.rst then k else k.emitRst loc rem s)

/-! ## 4. Closing -/

/-- Does dropping the last handle have to talk to the peer? -/
def closesActively (tcb : Tcb) : Bool :=
  !tcb.reset && !tcb.timedOut && tcb.state != .closed && !tcb.state.handshake

/-- Reset an unaccepted child of a listener that is going away, and remove it. -/
def resetChild (k : Kernel) (child : Fd) : Except Panic Kernel := do
  match k.lookup child with
  | none => pure k
  | some st =>
    match st.tcb with
    | none => pure (k.removeSocket child)
    | some tcb =>
      let loc ← boundEndpoint st
      pure ((k.emit loc tcb.peer (tcb.rstSegment loc tcb.peer)).removeSocket child)

/-- The sockets still in a handshake on the listener's port, at its address or at any if it
listens on the wildcard. -/
def handshakingOn (k : Kernel) (fd : Fd) (ready : List Fd) (loc : SocketAddr) : List Fd :=
  (k.sockets.sockets.entries.filter fun (childFd, st) =>
    !(childFd == fd || ready.contains childFd) &&
      match st.tcb, st.bound with
      | some tcb, some bind =>
        tcb.state == .synReceived && bind.localPort == loc.port
          && (loc.ip.isUnspecified || bind.localAddr == loc.ip)
      | _, _ => false).map Prod.fst

/-- `on_close`; the flag asks the caller to remove the socket. -/
def onClose (k : Kernel) (fd : Fd) : Except Panic (Kernel × Bool) := do
  match k.lookup fd with
  | none => pure (k, true)
  | some st =>
    match st.ty, st.tcb, st.listen with
    | .stream, none, some listen =>
      -- every child nobody accepted is reset
      let loc ← boundEndpoint st
      let children := listen.ready ++ k.handshakingOn fd listen.ready loc
      pure (← children.foldlM resetChild k, true)
    | .stream, some tcb, _ =>
      if closesActively tcb then
        if !tcb.recvBuf.isEmpty then
          let loc ← boundEndpoint st
          pure (k.emit loc tcb.peer (tcb.rstSegment loc tcb.peer), true)
        else
          let tcb := if tcb.wrClosed then tcb else tcb.shutWrite
          pure (k.modifySocket fd fun st => { st with fdClosed := true, tcb := some tcb }, false)
      else pure (k, true)
    | _, _, _ => pure (k, true)

/-- Has the application dropped the socket, and TCP finished with it? -/
def reapable (st : Socket) : Bool :=
  st.fdClosed && match st.tcb with
    | some t => t.state == .closed || t.reset
    | none => true

/-- `reap_closed`. -/
def reapClosed (k : Kernel) : Kernel :=
  ((k.sockets.sockets.entries.filter fun e => reapable e.2).map Prod.fst).foldl removeSocket k

/-! ## 5. Data -/

def tcpPollSend (k : Kernel) (fd : Fd) (buf : List UInt8) : Kernel × Poll (Except NetError Nat) :=
  match k.lookup fd with
  | none => (k, .ready (.error .notFound))
  | some st =>
    match st.tcb with
    | none => (k, .ready (.error .notConnected))
    | some tcb =>
      let (tcb, r) := tcb.pollSend k.cfg.sendBufCap buf
      (k.setTcb fd tcb, r)

def tcpPollShutdownWrite (k : Kernel) (fd : Fd) : Kernel × Poll (Except NetError Unit) :=
  match k.lookup fd with
  | none => (k, .ready (.error .notFound))
  | some st =>
    match st.tcb with
    | none => (k, .ready (.error .notConnected))
    | some tcb =>
      let (tcb, r) := tcb.pollShutdownWrite
      (k.setTcb fd tcb, r)

def tcpPollRecvVectored (k : Kernel) (fd : Fd) (lens : List Nat) :
    Except Panic (Kernel × Poll (Except NetError (List UInt8))) := do
  match k.lookup fd with
  | none => pure (k, .ready (.error .notFound))
  | some st =>
    match st.tcb with
    | none => pure (k, .ready (.error .notConnected))
    | some tcb =>
      let (tcb', r, update) := tcb.pollRecvVectored k.cfg.recvBufCap lens
      -- the endpoint is only looked at once there is something to read
      if tcb.abortError.isSome || tcb.recvBuf.isEmpty then pure (k, r)
      else
        let loc ← boundEndpoint st
        let k := k.setTcb fd tcb'
        pure (if update then k.emit loc tcb'.peer (tcb'.ackSegment k.cfg.recvBufCap loc tcb'.peer)
          else k, r)

def tcpPollPeek (k : Kernel) (fd : Fd) (len : Nat) : Poll (Except NetError (List UInt8)) :=
  match k.lookup fd with
  | none => .ready (.error .notFound)
  | some st =>
    match st.tcb with
    | none => .ready (.error .notConnected)
    | some tcb => tcb.pollPeek len

/-! ## 6. The sweeps of `egress` -/

/-- The sockets whose control block satisfies a test, in table order. -/
def candidates (k : Kernel) (p : Tcb → Bool) : List Fd :=
  (k.sockets.sockets.entries.filter fun e => match e.2.tcb with
    | some t => p t
    | none => false).map Prod.fst

/-- The first loop of `check_retx`, over one candidate: count, and decide. -/
def countRetx (k : Kernel) (fd : Fd) : Except Panic (Kernel × Tcb.RetxAction) := do
  let tcb ← expect (k.tcb? fd) "unwrap"
  let (tcb, action) := tcb.checkRetx k.cfg.retxThreshold k.cfg.retxMax
  pure (k.setTcb fd tcb, action)

/-- The first loop of `check_retx`: also, which handshakes to repeat and which connections to
give up. -/
def countAll : Kernel → List Fd → Except Panic (Kernel × List Fd × List Fd)
  | k, [] => pure (k, [], [])
  | k, fd :: fds => do
    let (k, action) ← k.countRetx fd
    let (k, resend, abort) ← countAll k fds
    pure (k, (if action = .handshake then fd :: resend else resend),
      (if action = .abort then fd :: abort else abort))

/-- `emit_handshake`. -/
def emitHandshake (k : Kernel) (fd : Fd) : Except Panic Kernel := do
  let st ← expect (k.lookup fd) "retx candidate"
  let tcb ← expect st.tcb "handshake state has tcb"
  let loc ← boundEndpoint st
  let seg ← tcb.handshakeSegment loc
  pure (k.emit loc tcb.peer seg)

/-- `check_retx`. -/
def checkRetx (k : Kernel) : Except Panic Kernel := do
  let (k, resend, abort) ← countAll k (k.candidates Tcb.awaitsAck)
  let k ← resend.foldlM emitHandshake k
  abort.foldlM (fun k fd => k.abortWith fd .timedOut) k

/-- `segment_one`. -/
def segmentOne (k : Kernel) (fd : Fd) : Except Panic Kernel := do
  let st ← expect (k.lookup fd) "unwrap"
  let loc ← boundEndpoint st
  let tcb ← expect st.tcb "unwrap"
  let (tcb', segs) ← tcb.segmentLoop k.cfg.recvBufCap (k.mssFor loc.ip) loc
    (tcb.sendBuf.length + 2)
  pure ((k.setTcb fd tcb').emitAll loc tcb.peer segs)

/-- `segment_all`. -/
def segmentAll (k : Kernel) : Except Panic Kernel :=
  (k.candidates Tcb.wantsSegment).foldlM segmentOne k

/-! ## 7. Which sockets the sweeps go over -/

variable {k : Kernel} {fd : Fd}

theorem mem_candidates {p : Tcb → Bool} :
    fd ∈ k.candidates p ↔ ∃ st t, k.lookup fd = some st ∧ st.tcb = some t ∧ p t = true := by
  unfold candidates
  simp only [List.mem_map, List.mem_filter, Prod.exists, exists_and_right, exists_eq_right]
  constructor
  · rintro ⟨st, hmem, hp⟩
    cases ht : st.tcb with
    | none =>
      rw [ht] at hp
      cases hp
    | some t =>
      rw [ht] at hp
      exact ⟨st, t, IndexMap.mem_entries.mp hmem, ht, hp⟩
  · rintro ⟨st, t, hst, ht, hp⟩
    exact ⟨st, IndexMap.mem_entries.mpr hst, by rw [ht]; exact hp⟩

theorem nodup_candidates (k : Kernel) (p : Tcb → Bool) : (k.candidates p).Nodup :=
  k.sockets.sockets.nodup.sublist (List.filter_sublist.map Prod.fst)

/-- The first loop of the check only gives up what it went over. -/
theorem countAll_abort_mem : ∀ {fds : List Fd} {k k' : Kernel} {resend abort : List Fd},
    countAll k fds = .ok (k', resend, abort) → ∀ fd ∈ abort, fd ∈ fds
  | [], k, k', resend, abort, h, fd, hfd => by
    cases h
    cases hfd
  | g :: fds, k, k', resend, abort, h, fd, hfd => by
    obtain ⟨⟨k1, action⟩, -, h⟩ := bind_eq_ok.mp h
    obtain ⟨⟨k2, resend2, abort2⟩, h2, h⟩ := bind_eq_ok.mp h
    obtain ⟨-, hlists⟩ := Prod.mk.inj (Except.ok.inj h)
    obtain ⟨-, habort⟩ := Prod.mk.inj hlists
    rw [← habort] at hfd
    split at hfd
    · rcases List.mem_cons.mp hfd with rfl | hfd
      · exact List.mem_cons_self
      · exact List.mem_cons_of_mem g (countAll_abort_mem h2 fd hfd)
    · exact List.mem_cons_of_mem g (countAll_abort_mem h2 fd hfd)

/-- What the first loop of the check gives up is decided by the control blocks it began with. -/
theorem countAll_abort : ∀ {fds : List Fd} {k k' : Kernel} {resend abort : List Fd},
    fds.Nodup → countAll k fds = .ok (k', resend, abort) → ∀ fd ∈ abort, ∃ t, k.tcb? fd = some t
      ∧ (t.checkRetx k.cfg.retxThreshold k.cfg.retxMax).2 = .abort
  | [], k, k', resend, abort, _, h, fd, hfd => by
    cases h
    cases hfd
  | g :: fds, k, k', resend, abort, hnodup, h, fd, hfd => by
    obtain ⟨⟨k1, action⟩, h1, h⟩ := bind_eq_ok.mp h
    obtain ⟨⟨k2, resend2, abort2⟩, h2, h⟩ := bind_eq_ok.mp h
    obtain ⟨t, ht, h1⟩ := bind_eq_ok.mp h1
    replace ht := expect_eq_ok.mp ht
    obtain ⟨hk1, hact⟩ : k.setTcb g (t.checkRetx k.cfg.retxThreshold k.cfg.retxMax).1 = k1
        ∧ (t.checkRetx k.cfg.retxThreshold k.cfg.retxMax).2 = action :=
      Prod.mk.inj (Except.ok.inj h1)
    obtain ⟨-, hlists⟩ := Prod.mk.inj (Except.ok.inj h)
    obtain ⟨-, habort⟩ := Prod.mk.inj hlists
    have hcase : fd = g ∧ action = .abort ∨ fd ∈ abort2 := by
      rw [← habort] at hfd
      split at hfd
      · rename_i hact
        rcases List.mem_cons.mp hfd with hfd | hfd
        · exact Or.inl ⟨hfd, hact⟩
        · exact Or.inr hfd
      · exact Or.inr hfd
    rcases hcase with ⟨rfl, hact'⟩ | hmem
    · exact ⟨t, ht, hact.trans hact'⟩
    · obtain ⟨t', ht', hact'⟩ := countAll_abort (List.nodup_cons.mp hnodup).2 h2 fd hmem
      have hne : fd ≠ g := by
        rintro rfl
        exact (List.nodup_cons.mp hnodup).1 (countAll_abort_mem h2 fd hmem)
      rw [← hk1] at ht' hact'
      refine ⟨t', ?_, hact'⟩
      rwa [tcb?, lookup_setTcb, if_neg hne] at ht'

end Kernel

end Turmoil.Net
