/-
# What happens to one control block

The parts of `kernel/tcp.rs` that look at a single control block and nothing else of the kernel:
what an inbound segment does to it, how its send buffer is cut into segments, what the calls of
the application do to it.  `Net.Tcp` looks control blocks up in the table, applies these, and
queues the packets.

`split_to` and slices are checked: out of range they panic, as in the source.
-/
import Turmoil.Net.Socket

namespace Turmoil.Net

/-! ## 1. Buffers -/

/-- `BytesMut::split_to`. -/
def splitTo (buf : List UInt8) (n : Nat) : Except Panic (List UInt8 × List UInt8) :=
  if n ≤ buf.length then .ok (buf.take n, buf.drop n) else .error .outOfRange

/-- `buf[start..stop]`. -/
def slice (buf : List UInt8) (start stop : Nat) : Except Panic (List UInt8) :=
  if start ≤ stop ∧ stop ≤ buf.length then .ok ((buf.drop start).take (stop - start))
  else .error .outOfRange

/-- `DEFAULT_WINDOW`. -/
def defaultWindow : UInt16 := 65535

def advertisedWindow (recvBufCap recvBufLen : Nat) : UInt16 :=
  UInt16.ofNat (min (recvBufCap - recvBufLen) 65535)

/-! ## 2. States -/

namespace TcpState

/-- The states in which unacknowledged bytes or a FIN are sent and sent again. -/
def carriesData : TcpState → Bool
  | established | closeWait | finWait1 | closing | lastAck => true
  | _ => false

/-- The states in which an empty receive buffer is waited on. -/
def readable : TcpState → Bool
  | established | finWait1 | finWait2 | closeWait => true
  | _ => false

def handshake : TcpState → Bool
  | synSent | synReceived => true
  | _ => false

/-- Our FIN was acknowledged. -/
def onFinAcked : TcpState → TcpState
  | finWait1 => finWait2
  | closing => closed
  | lastAck => closed
  | other => other

/-- The peer's FIN arrived. -/
def onPeerFin : TcpState → TcpState
  | established => closeWait
  | finWait1 => closing
  | finWait2 => closed
  | other => other

/-- The application shut the write side. -/
def onShutdown : TcpState → TcpState
  | established => finWait1
  | closeWait => lastAck
  | other => other

end TcpState

inductive AbortReason where
  | reset
  | timedOut
  deriving DecidableEq, Repr

namespace Tcb

/-- A control block as `poll_connect` and `accept_syn` make it. -/
def fresh (state : TcpState) (peer : SocketAddr) (isn : UInt32) (sndWnd : UInt16)
    (rcvNxt : UInt32) : Tcb where
  state := state
  peer := peer
  sndNxt := isn + 1
  sndUna := isn + 1
  sndWnd := sndWnd
  rcvNxt := rcvNxt
  sendBuf := []
  recvBuf := []
  wrClosed := false
  peerFin := false
  finSeq := none
  reset := false
  timedOut := false
  egressSinceAck := 0
  retxAttempts := 0

def inFlight (t : Tcb) : UInt32 := t.sndNxt - t.sndUna

/-- Is our FIN the next thing to send? -/
def finPending (t : Tcb) : Bool :=
  match t.finSeq with
  | some fs => t.sndNxt == fs
  | none => false

/-- `abort_error`. -/
def abortError (t : Tcb) : Option NetError :=
  if t.reset then some .connectionReset else if t.timedOut then some .timedOut else none

/-- `abort_with`. -/
def abort (t : Tcb) (reason : AbortReason) : Tcb :=
  { t with
    state := .closed
    reset := match reason with
      | .reset => true
      | .timedOut => t.reset
    timedOut := match reason with
      | .reset => t.timedOut
      | .timedOut => true
    sendBuf := []
    recvBuf := [] }

/-- The segment that only acknowledges and advertises the window. -/
def ackSegment (recvCap : Nat) (loc rem : SocketAddr) (t : Tcb) : TcpSegment where
  srcPort := loc.port
  dstPort := rem.port
  seq := t.sndNxt
  ack := t.rcvNxt
  flags := { ack := true }
  window := advertisedWindow recvCap t.recvBuf.length
  payload := []

/-- The segment that resets the connection when its socket goes away. -/
def rstSegment (loc rem : SocketAddr) (t : Tcb) : TcpSegment where
  srcPort := loc.port
  dstPort := rem.port
  seq := t.sndNxt
  ack := t.rcvNxt
  flags := { rst := true, ack := true }
  window := 0
  payload := []

/-! ## 3. Inbound segments -/

/-- The handshake's last step on the client. -/
def onSynAck (t : Tcb) (s : TcpSegment) : Tcb :=
  { t with state := .established, rcvNxt := s.seq + 1, sndWnd := s.window }

/-- The handshake's last step on the server. -/
def onHandshakeAck (t : Tcb) (s : TcpSegment) : Tcb :=
  { t with state := .established, sndWnd := s.window }

/-- Does this number acknowledge our FIN? -/
def acksFin (t : Tcb) (ack : UInt32) : Bool :=
  match t.finSeq with
  | some fs => ack == fs + 1
  | none => false

/-- Drop acknowledged bytes; the FIN alone has none. -/
def dropAcked (buf : List UInt8) (dataBytes : UInt32) : Except Panic (List UInt8) :=
  if 0 < dataBytes then do
    let (_, rest) ← splitTo buf dataBytes.toNat
    pure rest
  else pure buf

/-- The part of an acknowledgement that covers something in flight. -/
def takeAck (t : Tcb) (ack : UInt32) : Except Panic Tcb :=
  let acked := ack - t.sndUna
  if 0 < acked ∧ acked ≤ t.inFlight then do
    let finAcked := t.acksFin ack
    let rest ← dropAcked t.sendBuf (if finAcked then acked - 1 else acked)
    pure { t with
      sendBuf := rest
      sndUna := ack
      egressSinceAck := 0
      retxAttempts := 0
      state := if finAcked then t.state.onFinAcked else t.state }
  else pure t

/-- The acknowledgement, and the window it carries. -/
def onAck (t : Tcb) (s : TcpSegment) : Except Panic Tcb :=
  if s.flags.ack then do
    let t ← t.takeAck s.ack
    pure { t with sndWnd := s.window }
  else .ok t

/-- The payload: accepted at `rcv_nxt` only, as far as there is room.  The flag says whether
anything was. -/
def onData (recvCap : Nat) (t : Tcb) (s : TcpSegment) : Tcb × Bool :=
  if !s.payload.isEmpty && s.seq == t.rcvNxt && !t.peerFin then
    let n := min s.payload.length (recvCap - t.recvBuf.length)
    if n > 0 then
      ({ t with
        recvBuf := t.recvBuf ++ s.payload.take n
        rcvNxt := t.rcvNxt + UInt32.ofNat n }, true)
    else (t, false)
  else (t, false)

/-- The FIN: accepted in order only. -/
def onFin (t : Tcb) (s : TcpSegment) : Tcb × Bool :=
  if s.flags.fin && !t.peerFin && s.seq + UInt32.ofNat s.payload.length == t.rcvNxt then
    ({ t with peerFin := true, rcvNxt := t.rcvNxt + 1, state := t.state.onPeerFin }, true)
  else (t, false)

/-- `handle_established`; the flag asks for an acknowledgement. -/
def handleEstablished (recvCap : Nat) (t : Tcb) (s : TcpSegment) : Except Panic (Tcb × Bool) := do
  let t ← t.onAck s
  let (t, gotData) := t.onData recvCap s
  let (t, gotFin) := t.onFin s
  pure (t, gotData || gotFin)

/-! ## 4. Segmentation -/

/-- One turn of the loop of `segment_one`. -/
def segmentStep (recvCap mss : Nat) (loc : SocketAddr) (t : Tcb) :
    Except Panic (Option (Tcb × TcpSegment)) := do
  let inFlight := t.inFlight.toNat
  let unsent := t.sendBuf.length - inFlight
  let wndRemaining := t.sndWnd.toNat - inFlight
  if unsent > 0 && wndRemaining > 0 then
    let n := min (min unsent mss) wndRemaining
    let payload ← slice t.sendBuf inFlight (inFlight + n)
    let t' := { t with sndNxt := t.sndNxt + UInt32.ofNat n }
    pure (some (t',
      { srcPort := loc.port, dstPort := t.peer.port, seq := t.sndNxt, ack := t.rcvNxt
        flags := { ack := true, psh := !payload.isEmpty }
        window := advertisedWindow recvCap t.recvBuf.length, payload := payload }))
  else if t.finPending && wndRemaining > 0 then
    let t' := { t with sndNxt := t.sndNxt + 1 }
    pure (some (t',
      { srcPort := loc.port, dstPort := t.peer.port, seq := t.sndNxt, ack := t.rcvNxt
        flags := { ack := true, fin := true }
        window := advertisedWindow recvCap t.recvBuf.length, payload := [] }))
  else pure none

/-- The loop of `segment_one`.  Every turn sends a byte or the FIN, so it ends within the fuel
unless the segment size is zero. -/
def segmentLoop (recvCap mss : Nat) (loc : SocketAddr) : Nat → Tcb → Except Panic (Tcb × List TcpSegment)
  | 0, _ => .error .diverges
  | fuel + 1, t => do
    match ← t.segmentStep recvCap mss loc with
    | none => pure (t, [])
    | some (t, seg) =>
      let (t, segs) ← segmentLoop recvCap mss loc fuel t
      pure (t, seg :: segs)

/-- Does `segment_all` pick this control block? -/
def wantsSegment (t : Tcb) : Bool :=
  t.state.carriesData && (decide (t.sendBuf.length > t.inFlight.toNat) || t.finPending)

/-! ## 5. Retransmission -/

/-- Does `check_retx` count this control block? -/
def awaitsAck (t : Tcb) : Bool :=
  t.state.handshake || (t.state.carriesData && t.sndUna != t.sndNxt)

/-- What `check_retx` decides for a control block that awaits an acknowledgement. -/
inductive RetxAction where
  | wait
  | abort
  | handshake
  | rewind
  deriving DecidableEq, Repr

def checkRetx (threshold max : Nat) (t : Tcb) : Tcb × RetxAction :=
  let t := { t with egressSinceAck := t.egressSinceAck + 1 }
  if t.egressSinceAck < threshold then (t, .wait)
  else if t.retxAttempts ≥ max then (t, .abort)
  else
    let t := { t with retxAttempts := t.retxAttempts + 1, egressSinceAck := 0 }
    if t.state.handshake then (t, .handshake)
    else ({ t with sndNxt := t.sndUna }, .rewind)

/-- `emit_handshake`: the SYN or the SYN-ACK again. -/
def handshakeSegment (loc : SocketAddr) (t : Tcb) : Except Panic TcpSegment :=
  match t.state with
  | .synSent => .ok ⟨loc.port, t.peer.port, t.sndUna - 1, 0, { syn := true }, defaultWindow, []⟩
  | .synReceived =>
    .ok ⟨loc.port, t.peer.port, t.sndUna - 1, t.rcvNxt, { syn := true, ack := true },
      defaultWindow, []⟩
  | _ => .error (.expect "emit_handshake only called for SynSent/SynReceived")

/-! ## 6. Calls of the application -/

def pollSend (sendCap : Nat) (t : Tcb) (buf : List UInt8) : Tcb × Poll (Except NetError Nat) :=
  match t.abortError with
  | some e => (t, .ready (.error e))
  | none =>
    if t.wrClosed then (t, .ready (.error .brokenPipe))
    else if !(t.state == .established || t.state == .closeWait) then
      (t, .ready (.error .notConnected))
    else
      let space := sendCap - t.sendBuf.length
      if space = 0 then (t, .pending)
      else
        let n := min buf.length space
        ({ t with sendBuf := t.sendBuf ++ buf.take n }, .ready (.ok n))

/-- Shut the write side: the FIN takes the number after the last accepted byte. -/
def shutWrite (t : Tcb) : Tcb :=
  { t with
    finSeq := some (t.sndUna + UInt32.ofNat t.sendBuf.length)
    wrClosed := true
    state := t.state.onShutdown }

def pollShutdownWrite (t : Tcb) : Tcb × Poll (Except NetError Unit) :=
  match t.abortError with
  | some e => (t, .ready (.error e))
  | none => if t.wrClosed then (t, .ready (.ok ())) else (t.shutWrite, .ready (.ok ()))

/-- Fill buffers of the given lengths in order, until the data runs out: the bytes that were
moved, and the bytes that are left. -/
def drainInto : List UInt8 → List Nat → List UInt8 × List UInt8
  | data, [] => ([], data)
  | data, len :: lens =>
    let rest := data.drop len
    if rest.isEmpty then (data.take len, rest)
    else
      let (more, left) := drainInto rest lens
      (data.take len ++ more, left)

/-- `poll_recv_vectored` up to the window update, which the flag asks for.  The result is what
the buffers hold. -/
def pollRecvVectored (recvCap : Nat) (t : Tcb) (lens : List Nat) :
    Tcb × Poll (Except NetError (List UInt8)) × Bool :=
  match t.abortError with
  | some e => (t, .ready (.error e), false)
  | none =>
    if t.recvBuf.isEmpty then
      if t.peerFin then (t, .ready (.ok []), false)
      else if !t.state.readable then (t, .ready (.error .notConnected), false)
      else (t, .pending, false)
    else
      let (out, rest) := drainInto t.recvBuf lens
      ({ t with recvBuf := rest }, .ready (.ok out), decide (out.length ≥ recvCap / 2))

def pollPeek (t : Tcb) (len : Nat) : Poll (Except NetError (List UInt8)) :=
  match t.abortError with
  | some e => .ready (.error e)
  | none =>
    if t.recvBuf.isEmpty then
      if t.peerFin then .ready (.ok [])
      else if !t.state.readable then .ready (.error .notConnected)
      else .pending
    else .ready (.ok (t.recvBuf.take len))

end Tcb

end Turmoil.Net
