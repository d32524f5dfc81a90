/-
# The two ends of a simulated TCP stream

A host keeps a `StreamSocket` per connection.  It numbers the segments that leave, and puts those
that arrive back in order: they wait in `buf` until the next expected number is there, and then move
to a bounded channel.  The `ReadHalf` takes them from the channel one at a time into a stash, from
which three read paths copy: `poll_read`, `try_read_vectored` and `peek`.  A FIN in order drops the
sending end of the channel.

The channel is a FIFO of its capacity.  Credits are taken by a write and given back when the segment
leaves the channel.
-/
import Turmoil.Lib.IndexMap

namespace Turmoil.Stream

/-! ## 1. Segments and channels -/

abbrev Bytes := List UInt8

/-- A received segment stripped of its sequence number. -/
inductive SequencedSegment where
  | data (bytes : Bytes)
  | fin
  deriving DecidableEq, Repr

/-- A bounded `mpsc` channel of the receiving host: what was sent and not received yet, and whether
the receiver still exists. -/
structure Channel where
  queue : List Bytes
  capacity : Nat
  receiver : Bool
  deriving DecidableEq, Repr

def Channel.new (capacity : Nat) : Channel := ⟨[], capacity, true⟩

/-- The outcomes of `try_send`. -/
inductive TrySend where
  | ok (channel : Channel)
  | full
  | closed

def Channel.trySend (c : Channel) (bytes : Bytes) : TrySend :=
  if !c.receiver then .closed
  else if c.queue.length ≥ c.capacity then .full
  else .ok { c with queue := c.queue ++ [bytes] }

/-! ## 2. The socket -/

/-- `StreamSocket`, without its wakers.  `sender` is whether the sending end of the channel is still
held: it is dropped once the FIN is in order. -/
structure StreamSocket where
  buf : IndexMap Nat SequencedSegment
  nextSendSeq : Nat
  recvSeq : Nat
  sender : Bool
  refCt : Nat

def StreamSocket.new : StreamSocket := ⟨IndexMap.empty, 1, 0, true, 2⟩

inductive StreamState where
  | open
  | readClosed
  | reset
  deriving DecidableEq, Repr

/-- How the loop of `buffer` ends: every segment in order has moved to the channel, the channel was
full, or the stream cannot take the segment and a RST is the answer. -/
inductive Buffered where
  | upToDate
  | full
  | rst
  deriving DecidableEq, Repr

namespace StreamSocket

def assignSeq (s : StreamSocket) : StreamSocket × Nat :=
  ({ s with nextSendSeq := s.nextSendSeq + 1 }, s.nextSendSeq)

def state (s : StreamSocket) : StreamState := if s.sender then .open else .readClosed

/-- The loop of `buffer`.  Each turn takes a segment out of `buf`, so the number of segments is fuel
enough. -/
def bufferLoop : Nat → StreamSocket → Channel → StreamSocket × Channel × Buffered
  | 0, s, c => (s, c, .upToDate)
  | fuel + 1, s, c =>
    match s.buf.get? (s.recvSeq + 1) with
    | none => (s, c, .upToDate)
    | some segment =>
      let s := { s with buf := s.buf.swapRemove (s.recvSeq + 1) }
      if !s.sender then (s, c, .rst)
      else
        match segment with
        | .data bytes =>
          match c.trySend bytes with
          | .ok c => bufferLoop fuel { s with recvSeq := s.recvSeq + 1 } c
          | .closed => (s, c, .rst)
          | .full => ({ s with buf := s.buf.insert (s.recvSeq + 1) segment }, c, .full)
        | .fin =>
          if !c.receiver then (s, c, .rst)
          else bufferLoop fuel { s with sender := false, recvSeq := s.recvSeq + 1 } c

/-- `StreamSocket::buffer`; nothing when the assertion on duplicates fails. -/
def buffer (s : StreamSocket) (c : Channel) (seq : Nat) (segment : SequencedSegment) :
    Option (StreamSocket × Channel × Buffered) :=
  if s.buf.contains seq then none
  else
    let s := { s with buf := s.buf.insert seq segment }
    some (bufferLoop s.buf.keys.length s c)

/-- Are Data segments waiting out of order? -/
def hasBufferedData (s : StreamSocket) : Bool :=
  s.buf.values.any fun
    | .data _ => true
    | .fin => false

end StreamSocket

/-! ## 3. The read half -/

/-- What the read half holds besides the channel's receiver: the rest of a segment, and whether the
end was seen. -/
structure Rx where
  buffer : Option Bytes
  isClosed : Bool
  deriving DecidableEq, Repr

def Rx.new : Rx := ⟨none, false⟩

/-- What a read works on: the receiving side of a stream, and the credits it gives back. -/
structure Reader where
  rx : Rx
  channel : Channel
  credits : Nat
  deriving DecidableEq, Repr

inductive ReadError where
  | wouldBlock
  | connectionReset
  deriving DecidableEq, Repr

/-- `Poll<Result<T>>`. -/
inductive Poll (α : Type) where
  | pending
  | ready (value : α)
  | failed (error : ReadError)
  deriving DecidableEq, Repr

namespace Reader

/-- Take the next segment out of the channel and give its credit back. -/
def take (r : Reader) : Option (Reader × Bytes) :=
  match r.channel.queue with
  | [] => none
  | bytes :: queue =>
    some ({ r with channel := { r.channel with queue := queue }, credits := r.credits + 1 }, bytes)

/-- `poll_fill` with `poll_recv`; `held` says whether the sending end of the channel exists. -/
def pollFill (r : Reader) (held : Bool) (state : StreamState) : Reader × Poll Unit :=
  if r.rx.isClosed || r.rx.buffer.isSome then (r, .ready ())
  else
    match r.take with
    | some (r, bytes) => ({ r with rx := { r.rx with buffer := some bytes } }, .ready ())
    | none =>
      if held then (r, .pending)
      else if state = .readClosed then ({ r with rx := { r.rx with isClosed := true } }, .ready ())
      else (r, .failed .connectionReset)

/-- `put_slice` into a buffer with room for `remaining` bytes: what is left over, and what was put. -/
def putSlice (avail : Bytes) (remaining : Nat) : Option Bytes × Bytes :=
  let amt := min avail.length remaining
  let rest := avail.drop amt
  (if rest.isEmpty then none else some rest, avail.take amt)

/-- `poll_read_priv` into a `ReadBuf` that has `filled` bytes and room for `remaining` more. -/
def pollRead (r : Reader) (held : Bool) (state : StreamState) (filled remaining : Nat) :
    Reader × Poll Bytes :=
  if filled + remaining = 0 then (r, .ready [])
  else
    match r.pollFill held state with
    | (r, .ready ()) =>
      match r.rx.buffer with
      | some bytes =>
        let (rest, put) := putSlice bytes remaining
        ({ r with rx := { r.rx with buffer := rest } }, .ready put)
      | none => (r, .ready [])
    | (r, .pending) => (r, .pending)
    | (r, .failed e) => (r, .failed e)

/-- `poll_peek_priv`. -/
def pollPeek (r : Reader) (held : Bool) (state : StreamState) (filled remaining : Nat) :
    Reader × Poll Bytes :=
  if filled + remaining = 0 then (r, .ready [])
  else
    match r.pollFill held state with
    | (r, .ready ()) =>
      match r.rx.buffer with
      | some bytes => (r, .ready (bytes.take (min bytes.length remaining)))
      | none => (r, .ready [])
    | (r, .pending) => (r, .pending)
    | (r, .failed e) => (r, .failed e)

/-- The inner loop of `try_read_vectored`, on what is left of the current buffer and of the buffers
after it: the room left, the bytes left, and the bytes copied. -/
def copyInto : List Nat → Bytes → List Nat × Bytes × Bytes
  | [], bytes => ([], bytes, [])
  | room :: rooms, bytes =>
    let len := min bytes.length room
    let rest := bytes.drop len
    if rest.isEmpty then (if len = room then rooms else (room - len) :: rooms, rest, bytes.take len)
    else
      -- the bytes did not fit, so the buffer is full
      let (rooms, left, copied) := copyInto rooms rest
      (rooms, left, bytes.take len ++ copied)

/-- Keep what is left of a segment. -/
def stash (r : Reader) (rest : Bytes) : Reader :=
  { r with rx := { r.rx with buffer := if rest.isEmpty then none else some rest } }

/-- The outer loop of `try_read_vectored`: `out` is what was copied so far, and the fuel counts the
segments that can still be taken. -/
def readLoop (held : Bool) (state : StreamState) :
    Nat → Reader → List Nat → Bytes → Reader × Except ReadError Bytes
  | 0, r, _, out => (r, .ok out)
  | fuel + 1, r, rooms, out =>
    if r.rx.isClosed then (r, .ok out)
    else
      let copy (r : Reader) (bytes : Bytes) : Reader × Except ReadError Bytes :=
        let (rooms, rest, copied) := copyInto rooms bytes
        let r := r.stash rest
        if rooms.isEmpty then (r, .ok (out ++ copied))
        else readLoop held state fuel r rooms (out ++ copied)
      match r.rx.buffer with
      | some bytes => copy r bytes
      | none =>
        match r.take with
        | some (r, bytes) => copy r bytes
        | none =>
          if !out.isEmpty then (r, .ok out)
          else if held then (r, .error .wouldBlock)
          else if state = .readClosed then
            ({ r with rx := { r.rx with isClosed := true } }, .ok out)
          else (r, .error .connectionReset)

/-- `try_read_vectored` into buffers of the given lengths. -/
def tryReadVectored (r : Reader) (held : Bool) (state : StreamState) (bufs : List Nat) :
    Reader × Except ReadError Bytes :=
  readLoop held state (r.channel.queue.length + 2) r bufs []

end Reader

end Turmoil.Stream
