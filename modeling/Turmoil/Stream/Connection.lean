/-
# One connection

Two endpoints, the link between them, and the credits they share.  Each direction is a pipeline: a
write takes a credit and puts a numbered segment on the link; the link delivers segments in any
order, each once; the receiving socket reorders them into its channel; and a read takes a segment
out of the channel, which gives the credit back.

The flow control of a connection is made by the client and handed to the server inverted, so that
the credits one side's writes take are those the other side's reads give back.
-/
import Turmoil.Stream.Socket

namespace Turmoil.Stream

/-! ## 1. The state -/

inductive Side where
  | client
  | server
  deriving DecidableEq, Repr

def Side.other : Side → Side
  | .client => .server
  | .server => .client

@[simp] theorem Side.other_other (s : Side) : s.other.other = s := by cases s <;> rfl

theorem Side.ne_other (s : Side) : s ≠ s.other := by cases s <;> decide

theorem Side.other_ne (s : Side) : s.other ≠ s := by cases s <;> decide

theorem Side.cases (s s' : Side) : s' = s ∨ s' = s.other := by
  cases s <;> cases s' <;> simp [Side.other]

/-- The credits of both directions, as one end sees them. -/
structure BidiFlowControl where
  write : Nat
  read : Nat
  deriving DecidableEq, Repr

def BidiFlowControl.new (capacity : Nat) : BidiFlowControl := ⟨capacity, capacity⟩

def BidiFlowControl.invert (f : BidiFlowControl) : BidiFlowControl := ⟨f.read, f.write⟩

/-- One end: its socket, its channel, and its two halves. -/
structure Endpoint where
  socket : StreamSocket
  channel : Channel
  rx : Rx
  isShutdown : Bool

def Endpoint.new (capacity : Nat) : Endpoint :=
  ⟨StreamSocket.new, Channel.new capacity, Rx.new, false⟩

structure Connection where
  endpoint : Side → Endpoint
  /-- The credits, as the client made them. -/
  flow : BidiFlowControl
  /-- The segments under way, by the side that sent them. -/
  link : Side → List (Nat × SequencedSegment)

/-- A connection that was just accepted. -/
def Connection.new (capacity : Nat) : Connection :=
  ⟨fun _ => Endpoint.new capacity, BidiFlowControl.new capacity, fun _ => []⟩

namespace Connection

/-- The flow control of one side's stream. -/
def flowControl (c : Connection) : Side → BidiFlowControl
  | .client => c.flow
  | .server => c.flow.invert

def setFlowControl (c : Connection) (s : Side) (f : BidiFlowControl) : Connection :=
  match s with
  | .client => { c with flow := f }
  | .server => { c with flow := f.invert }

def setEndpoint (c : Connection) (s : Side) (e : Endpoint) : Connection :=
  { c with endpoint := Function.update c.endpoint s e }

def send (c : Connection) (s : Side) (seq : Nat) (segment : SequencedSegment) : Connection :=
  { c with link := Function.update c.link s (c.link s ++ [(seq, segment)]) }

/-! ## 2. The calls -/

inductive WriteError where
  | brokenPipe
  | wouldBlock
  | notConnected
  deriving DecidableEq, Repr

/-- `WriteHalf::try_write`. -/
def tryWrite (c : Connection) (s : Side) (buf : Bytes) : Connection × Except WriteError Nat :=
  let e := c.endpoint s
  let f := c.flowControl s
  if e.isShutdown then (c, .error .brokenPipe)
  else if buf.isEmpty then (c, .ok 0)
  else if f.write = 0 then (c, .error .wouldBlock)
  else
    let c := c.setFlowControl s { f with write := f.write - 1 }
    let (socket, seq) := e.socket.assignSeq
    let c := c.setEndpoint s { e with socket := socket }
    (c.send s seq (.data buf), .ok buf.length)

/-- `WriteHalf::poll_shutdown_priv`. -/
def pollShutdown (c : Connection) (s : Side) : Connection × Except WriteError Unit :=
  let e := c.endpoint s
  if e.isShutdown then (c, .error .notConnected)
  else
    let (socket, seq) := e.socket.assignSeq
    let c := c.setEndpoint s { e with socket := socket, isShutdown := true }
    (c.send s seq .fin, .ok ())

/-- The link delivers the `i`-th segment under way from `s` to the other side. -/
def deliver (c : Connection) (s : Side) (i : Nat) : Option (Connection × Option Buffered) :=
  match (c.link s)[i]? with
  | none => some (c, none)
  | some (seq, segment) =>
    let e := c.endpoint s.other
    (e.socket.buffer e.channel seq segment).map fun (socket, channel, outcome) =>
      ({ c with link := Function.update c.link s ((c.link s).eraseIdx i) }.setEndpoint s.other
        { e with socket := socket, channel := channel }, some outcome)

/-- What the reads of a side work on. -/
def reader (c : Connection) (s : Side) : Reader :=
  ⟨(c.endpoint s).rx, (c.endpoint s).channel, (c.flowControl s).read⟩

def setReader (c : Connection) (s : Side) (r : Reader) : Connection :=
  (c.setFlowControl s { c.flowControl s with read := r.credits }).setEndpoint s
    { c.endpoint s with rx := r.rx, channel := r.channel }

/-! ## 3. Runs -/

inductive Op where
  | tryWrite (s : Side) (buf : Bytes)
  | pollShutdown (s : Side)
  | deliver (s : Side) (i : Nat)
  | pollRead (s : Side) (filled remaining : Nat)
  | tryReadVectored (s : Side) (bufs : List Nat)
  | pollPeek (s : Side) (filled remaining : Nat)
  | pollReadReady (s : Side)
  deriving DecidableEq, Repr

/-- What a call shows to the outside. -/
inductive Event where
  | wrote (s : Side) (bytes : Bytes)
  | shutdown (s : Side)
  | buffered (s : Side) (outcome : Buffered)
  /-- A read or a peek that is done, with the room it had. -/
  | read (s : Side) (room : Nat) (bytes : Bytes)
  | peeked (s : Side) (room : Nat) (bytes : Bytes)
  deriving DecidableEq, Repr

/-- A side's view of its own stream: the sending end of its channel, and `stream_state`. -/
def held (c : Connection) (s : Side) : Bool := (c.endpoint s).socket.sender

def state (c : Connection) (s : Side) : StreamState := (c.endpoint s).socket.state

/-- One call, and what it shows; nothing when an assertion fails. -/
def step (c : Connection) : Op → Option (Connection × List Event)
  | .tryWrite s buf =>
    match c.tryWrite s buf with
    | (c, .ok n) => some (c, [.wrote s (buf.take n)])
    | (c, .error _) => some (c, [])
  | .pollShutdown s =>
    match c.pollShutdown s with
    | (c, .ok ()) => some (c, [.shutdown s])
    | (c, .error _) => some (c, [])
  | .deliver s i =>
    (c.deliver s i).map fun (c, outcome) => (c, (outcome.map (.buffered s)).toList)
  | .pollRead s filled remaining =>
    match (c.reader s).pollRead (c.held s) (c.state s) filled remaining with
    | (r, .ready bytes) => some (c.setReader s r, [.read s remaining bytes])
    | (r, _) => some (c.setReader s r, [])
  | .tryReadVectored s bufs =>
    match (c.reader s).tryReadVectored (c.held s) (c.state s) bufs with
    | (r, .ok bytes) => some (c.setReader s r, [.read s bufs.sum bytes])
    | (r, .error _) => some (c.setReader s r, [])
  | .pollPeek s filled remaining =>
    match (c.reader s).pollPeek (c.held s) (c.state s) filled remaining with
    | (r, .ready bytes) => some (c.setReader s r, [.peeked s remaining bytes])
    | (r, _) => some (c.setReader s r, [])
  | .pollReadReady s =>
    some (c.setReader s ((c.reader s).pollFill (c.held s) (c.state s)).1, [])

def run (c : Connection) : List Op → Option (Connection × List Event)
  | [] => some (c, [])
  | op :: ops => (c.step op).bind fun (c, ev) => (c.run ops).map fun (c, evs) => (c, ev ++ evs)

end Connection

end Turmoil.Stream
