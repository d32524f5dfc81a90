/-
# One ring

An entry pushed on the submission queue is accepted by `submit`, which gives it a completion time
and puts it into `inflight`.  Once its time has come it moves to `ready`, in shuffled order, and
`CompletionQueue::next` takes it from there and runs its effect.  A cancel takes an operation out of
either pool and puts an error in its place.

Every scheduled entry carries a number that no function reads: which of the accepted entries it
answers.  The theorems need it to say "this entry", since `user_data` may repeat.
-/
import Turmoil.Lib.Pool
import Turmoil.Uring.Exec

namespace Turmoil.Uring

open Fs

/-! ## 1. Submission entries -/

/-- Per-entry flags: `FIXED_FILE`, `IO_DRAIN`, `IO_LINK`, `IO_HARDLINK`, `ASYNC`, `BUFFER_SELECT`
from the lowest bit up. -/
structure Flags where
  bits : UInt8
  deriving DecidableEq, Repr

/-- All flags but `ASYNC` are rejected. -/
def Flags.hasUnsupported (f : Flags) : Bool := f.bits &&& 0b101111 != 0

inductive OpKind where
  | read (fd : RawFd) (ptr len offset : Nat)
  | write (fd : RawFd) (ptr len offset : Nat)
  | fsync (fd : RawFd)
  | asyncCancel (targetUserData : UInt64)
  deriving DecidableEq, Repr

structure Entry where
  op : OpKind
  userData : UInt64
  flags : Flags
  deriving DecidableEq, Repr

/-! ## 2. The ring -/

/-- What runs against the filesystem when the completion is yielded. -/
inductive PendingApply where
  | read (fd : RawFd) (ptr len offset : Nat)
  | write (fd : RawFd) (ptr len offset : Nat)
  | fsync (fd : RawFd)
  | immediateError (err : Int)
  deriving DecidableEq, Repr

structure ScheduledCqe where
  when : Duration
  userData : UInt64
  apply : PendingApply
  /-- The accepted entry it answers.  Nothing reads it. -/
  sqe : Nat
  deriving DecidableEq, Repr

structure RingState where
  depth : Nat
  sq : List Entry
  inflight : List ScheduledCqe
  ready : List ScheduledCqe
  deriving DecidableEq, Repr

namespace RingState

def new (depth : Nat) : RingState := ⟨depth, [], [], []⟩

def schedule (r : RingState) (userData : UInt64) (when : Duration) (apply : PendingApply)
    (sqe : Nat) : RingState :=
  { r with inflight := r.inflight ++ [⟨when, userData, apply, sqe⟩] }

def postImmediateError (r : RingState) (userData : UInt64) (errno : Int) (now : Duration)
    (sqe : Nat) : RingState :=
  r.schedule userData now (.immediateError errno) sqe

/-- Take out the first operation tagged `targetUd`, from `inflight` or else from `ready`. -/
def takeTarget (r : RingState) (targetUd : UInt64) : Option (ScheduledCqe × RingState) :=
  match r.inflight.findIdx? (·.userData == targetUd) with
  | some idx => r.inflight[idx]?.map fun c =>
      (c, { r with inflight := swapRemove r.inflight idx })
  | none =>
    match r.ready.findIdx? (·.userData == targetUd) with
    | some idx => r.ready[idx]?.map fun c => (c, { r with ready := r.ready.eraseIdx idx })
    | none => none

/-- Post one completion for the target, if there is one, and one for the cancel itself. -/
def cancel (r : RingState) (cancelUd targetUd : UInt64) (now : Duration) (sqe : Nat) : RingState :=
  match r.takeTarget targetUd with
  | some (c, r) =>
    let r := r.schedule targetUd now (.immediateError (-ecanceled)) c.sqe
    r.schedule cancelUd now (.immediateError 0) sqe
  | none => r.schedule cancelUd now (.immediateError (-enoent)) sqe

/-- Completions whose time has come. -/
def readyCqCount (r : RingState) (now : Duration) : Nat :=
  r.ready.length + r.inflight.countP (fun c => c.when ≤ now)

/-- Move what has matured to the end of `ready`, shuffled. -/
def promoteReady (r : RingState) (now : Duration) (order : Shuffle) : RingState :=
  let (inflight, matured) := scanOut (fun c => decide (c.when ≤ now)) r.inflight.length 0
    r.inflight []
  { r with inflight := inflight, ready := r.ready ++ shuffle order matured }

def popReady (r : RingState) (now : Duration) (order : Shuffle) :
    RingState × Option ScheduledCqe :=
  let r := r.promoteReady now order
  match r.ready with
  | [] => (r, none)
  | c :: ready => ({ r with ready := ready }, some c)

end RingState

/-! ## 3. Running an operation -/

/-- The memory the caller's pointers point into. -/
abbrev Memory := Nat → UInt8

/-- `slice::from_raw_parts`. -/
def slice (mem : Memory) (ptr len : Nat) : List UInt8 :=
  (List.range len).map fun i => mem (ptr + i)

/-- What the memory holds once the slice at `ptr` holds `bytes`. -/
def store (mem : Memory) (ptr : Nat) (bytes : List UInt8) : Memory := fun a =>
  if ptr ≤ a ∧ a < ptr + bytes.length then bytes.getD (a - ptr) 0 else mem a

/-- The random decisions one operation may meet. -/
structure Draws where
  read : Shim.ReadFaults
  write : WriteFaults
  fsyncError : Bool

/-- `PendingApply::execute`: the filesystem, the memory and the result of the completion; nothing
when the process ends in it. -/
def PendingApply.execute (apply : PendingApply) (fs : FsState) (mem : Memory) (draws : Draws)
    (now : Duration) : Option (FsState × Memory × Int) :=
  match apply with
  | .immediateError err => some (fs, mem, err)
  | .read fd ptr len offset =>
    match execRead fs fd ptr (slice mem ptr len) offset draws.read with
    | (_, _, none) => none
    | (fs, buf, some result) => some (fs, store mem ptr buf, result)
  | .write fd ptr len offset =>
    match execWrite fs fd ptr (slice mem ptr len) offset draws.write now with
    | (_, none) => none
    | (fs, some result) => some (fs, mem, result)
  | .fsync fd =>
    let (fs, result) := execFsync fs fd draws.fsyncError
    some (fs, mem, result)

/-! ## 4. Submission -/

/-- What the latency of one operation is drawn from: whether the page cache evicts at random, and
the sample of the latency distribution (zero without one). -/
structure LatencyDraw where
  evict : Bool
  sample : Duration

/-- `FsState::calculate_latency`. -/
def calculateLatency (fs : FsState) (cacheHit : Bool) (sample : Duration) : Duration :=
  if cacheHit && fs.pageCache.isSome then 100 else sample

/-- The page cache seen by a read, and whether it hits. -/
def cacheRead (fs : FsState) (fd : RawFd) (offset : Nat) (evict : Bool) : Option (FsState × Bool) :=
  if fs.directIoFds.contains fd then some (fs, false)
  else
    match fs.openHandles.get? fd, fs.pageCache with
    | some path, some cache =>
      let (cache, hit) := cache.access path offset evict
      (cache.insert path offset).map fun cache => ({ fs with pageCache := some cache }, hit)
    | _, _ => some (fs, false)

/-- The page cache after a write. -/
def cacheWrite (fs : FsState) (fd : RawFd) (offset : Nat) : Option FsState :=
  if fs.directIoFds.contains fd then some fs
  else
    match fs.openHandles.get? fd, fs.pageCache with
    | some path, some cache =>
      (cache.insert path offset).map fun cache => { fs with pageCache := some cache }
    | _, _ => some fs

/-- What happens to the ring, as a trace for the theorems. -/
inductive Event where
  /-- `submit` accepted an entry, due at `due`. -/
  | accepted (entry : Entry) (due : Duration)
  /-- A cancel took the operation of an accepted entry out. -/
  | removed (sqe : Nat)
  /-- `next` yielded a completion. -/
  | yielded (cqe : ScheduledCqe) (result : Int) (time : Duration)
  /-- `next` returned `None`. -/
  | exhausted
  deriving DecidableEq, Repr

/-- One turn of the loop of `schedule_pending`, for the accepted entry number `sqe`; nothing when
the page cache's loop does not end. -/
def scheduleEntry (fs : FsState) (ring : RingState) (now : Duration) (draw : LatencyDraw)
    (sqe : Nat) (entry : Entry) : Option (FsState × RingState × List Event) :=
  if entry.flags.hasUnsupported then
    some (fs, ring.postImmediateError entry.userData (-22) now sqe, [.accepted entry now])
  else
    match entry.op with
    | .read fd ptr len offset =>
      (cacheRead fs fd offset draw.evict).map fun (fs, hit) =>
        let due := now + calculateLatency fs hit draw.sample
        (fs, ring.schedule entry.userData due (.read fd ptr len offset) sqe, [.accepted entry due])
    | .write fd ptr len offset =>
      (cacheWrite fs fd offset).map fun fs =>
        let due := now + calculateLatency fs false draw.sample
        (fs, ring.schedule entry.userData due (.write fd ptr len offset) sqe,
          [.accepted entry due])
    | .fsync fd =>
      let due := now + calculateLatency fs false draw.sample
      some (fs, ring.schedule entry.userData due (.fsync fd) sqe, [.accepted entry due])
    | .asyncCancel target =>
      some (fs, ring.cancel entry.userData target now sqe,
        ((ring.takeTarget target).map fun c => Event.removed c.1.sqe).toList ++ [.accepted entry now])

/-- `schedule_pending` on the drained entries, the first of which is accepted as number `sqe`. -/
def schedulePending (now : Duration) (draw : Nat → LatencyDraw) :
    FsState → RingState → Nat → List Entry → Option (FsState × RingState × List Event)
  | fs, ring, _, [] => some (fs, ring, [])
  | fs, ring, sqe, entry :: entries =>
    (scheduleEntry fs ring now (draw sqe) sqe entry).bind fun (fs, ring, ev) =>
      (schedulePending now draw fs ring (sqe + 1) entries).map fun (fs, ring, evs) =>
        (fs, ring, ev ++ evs)

/-! ## 5. The ring in its host -/

/-- A ring, one handle on its completion queue, and the host around it. -/
structure World where
  ring : RingState
  /-- How many completions the last `sync` of the handle left to yield. -/
  visible : Option Nat
  fs : FsState
  mem : Memory
  now : Duration
  /-- How many entries `submit` has accepted. -/
  accepted : Nat

/-- A fresh ring with a fresh handle. -/
def World.new (depth : Nat) (fs : FsState) (mem : Memory) (now : Duration) : World :=
  ⟨RingState.new depth, none, fs, mem, now, 0⟩

inductive RingOp where
  | push (entry : Entry)
  | submit (draw : Nat → LatencyDraw)
  | sync
  | next (order : Shuffle) (draws : Draws)
  /-- Time passes. -/
  | advance (d : Duration)
  /-- The rest of the host uses the filesystem and its memory. -/
  | outside (fs : FsState) (mem : Memory)

namespace World

/-- `CompletionQueue::next`. -/
def nextCqe (w : World) (order : Shuffle) (draws : Draws) : Option (World × List Event) :=
  match w.visible with
  | none => some (w, [.exhausted])
  | some 0 => some (w, [.exhausted])
  | some (remaining + 1) =>
    match w.ring.popReady w.now order with
    | (ring, none) => some ({ w with ring := ring }, [.exhausted])
    | (ring, some c) =>
      (c.apply.execute w.fs w.mem draws w.now).map fun (fs, mem, result) =>
        ({ w with ring := ring, visible := some remaining, fs := fs, mem := mem },
          [.yielded c result w.now])

def step (w : World) : RingOp → Option (World × List Event)
  | .push entry =>
    if w.ring.sq.length ≥ w.ring.depth then some (w, [])
    else some ({ w with ring := { w.ring with sq := w.ring.sq ++ [entry] } }, [])
  | .submit draw =>
    (schedulePending w.now draw w.fs { w.ring with sq := [] } w.accepted w.ring.sq).map
      fun (fs, ring, evs) =>
        ({ w with fs := fs, ring := ring, accepted := w.accepted + w.ring.sq.length }, evs)
  | .sync => some ({ w with visible := some (w.ring.readyCqCount w.now) }, [])
  | .next order draws => w.nextCqe order draws
  | .advance d => some ({ w with now := w.now + d }, [])
  | .outside fs mem => some ({ w with fs := fs, mem := mem }, [])

/-- A run of calls, and its trace. -/
def run (w : World) : List RingOp → Option (World × List Event)
  | [] => some (w, [])
  | op :: ops =>
    (w.step op).bind fun (w, ev) => (w.run ops).map fun (w, evs) => (w, ev ++ evs)

end World

end Turmoil.Uring
