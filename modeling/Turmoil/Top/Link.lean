/-
# The link between two hosts

`top.rs`: a message goes from `sent`, where it waits for its time or for a release, to
`deliverable`, where it waits for its host to be run, and from there to the host.  Faults rewrite
the two directions' states and the first of the two queues.

What a call draws at random is an argument (`Outcome`): the rates and latencies of the
configuration only decide which outcomes are likely.  What happens to messages is returned next to
the link, as a list of events in the order in which they happen.  A call returns `none` where the
source would index out of range.
-/
import Turmoil.Lib.IndexMap
import Turmoil.Net.Packet

namespace Turmoil.Top

open Turmoil.Net (IpAddr SocketAddr)

/-! ## 1. Messages -/

/-- `Ord` on addresses: IPv4 before IPv6, then by value. -/
def ipLt : IpAddr → IpAddr → Bool
  | .v4 a, .v4 b => a < b
  | .v4 _, .v6 _ => true
  | .v6 _, .v4 _ => false
  | .v6 a, .v6 b => a < b

/-- Of two addresses one is the smaller. -/
theorem ipLt_asymm {a b : IpAddr} (h : a ≠ b) : ipLt b a = !ipLt a b := by
  cases a with
  | v4 a =>
    cases b with
    | v4 b =>
      have hne : a ≠ b := fun e => h (congrArg _ e)
      have hiff : b < a ↔ ¬ a < b := by bv_omega
      simp only [ipLt, hiff, decide_not]
    | v6 b => rfl
  | v6 a =>
    cases b with
    | v4 b => rfl
    | v6 b =>
      have hne : a ≠ b := fun e => h (congrArg _ e)
      have hiff : b < a ↔ ¬ a < b := by bv_omega
      simp only [ipLt, hiff, decide_not]

structure Envelope (μ : Type) where
  src : SocketAddr
  dst : SocketAddr
  message : μ
  deriving DecidableEq, Repr

inductive DeliveryStatus where
  | deliverAfter (time : Nat)
  | hold
  deriving DecidableEq, Repr

/-- A message on the link. -/
structure Sent (μ : Type) where
  src : SocketAddr
  dst : SocketAddr
  status : DeliveryStatus
  protocol : μ
  deriving DecidableEq, Repr

namespace Sent

variable {μ : Type}

def envelope (s : Sent μ) : Envelope μ := ⟨s.src, s.dst, s.protocol⟩

/-- Schedule the message for the link's present time. -/
def deliver (now : Nat) (s : Sent μ) : Sent μ := { s with status := .deliverAfter now }

end Sent

inductive State where
  | healthy
  | explicitPartition
  | randPartition
  | hold
  deriving DecidableEq, Repr

/-- What one send draws: whether `rand_partition` and `rand_repair` say yes, and the delay. -/
structure Outcome where
  randPartition : Bool
  randRepair : Bool
  delay : Nat
  deriving DecidableEq, Repr

/-- What happens to messages. -/
inductive Event (μ : Type) where
  | entered (e : Envelope μ)
  | dropped (e : Envelope μ)
  /-- The message was due, and waits for its host now. -/
  | ready (e : Envelope μ) (due : Nat)
  /-- The message was handed to `receive_from_network` of the host at this address. -/
  | delivered (host : IpAddr) (e : Envelope μ) (now : Nat)
  deriving DecidableEq, Repr

/-! ## 2. The link -/

structure Link (μ : Type) where
  stateAB : State
  stateBA : State
  sent : List (Sent μ)
  deliverable : IndexMap IpAddr (List (Envelope μ))
  now : Nat

namespace Link

variable {μ : Type}

def new (now : Nat) : Link μ := ⟨.healthy, .healthy, [], IndexMap.empty, now⟩

def getStateForMessage (l : Link μ) (src dst : IpAddr) : State :=
  if ipLt src dst then l.stateAB else l.stateBA

/-- The queue of messages ready for a host. -/
def readyFor (l : Link μ) (host : IpAddr) : List (Envelope μ) := (l.deliverable.get? host).getD []

/-- `deliverable.entry(dst).or_default().push_back(envelope)`. -/
def pushReady (l : Link μ) (e : Envelope μ) : Link μ :=
  { l with deliverable := l.deliverable.insert e.dst.ip (l.readyFor e.dst.ip ++ [e]) }

/-- The loop of `process_deliverables`: `left` turns to go, at turn `i`, with `gone` messages
removed so far. -/
def processFrom : Nat → Nat → Nat → Link μ → Option (Link μ × List (Event μ))
  | 0, _, _, l => some (l, [])
  | left + 1, i, gone, l => do
    let index := i - gone
    let s ← l.sent[index]?
    match s.status with
    | .deliverAfter time =>
      if time ≤ l.now then
        let l := { l with sent := l.sent.eraseIdx index }.pushReady s.envelope
        let (l, events) ← processFrom left (i + 1) (gone + 1) l
        some (l, .ready s.envelope time :: events)
      else processFrom left (i + 1) gone l
    | .hold => processFrom left (i + 1) gone l

def processDeliverables (l : Link μ) : Option (Link μ × List (Event μ)) :=
  processFrom l.sent.length 0 0 l

/-- `sent.clear()`. -/
def clear (l : Link μ) : Link μ × List (Event μ) :=
  ({ l with sent := [] }, l.sent.map fun s => .dropped s.envelope)

def hold (l : Link μ) : Link μ :=
  { l with
    stateAB := .hold
    stateBA := .hold
    sent := l.sent.map fun s => { s with status := .hold } }

def release (l : Link μ) : Link μ :=
  { l with
    stateAB := .healthy
    stateBA := .healthy
    sent := l.sent.map fun s =>
      match s.status with
      | .hold => s.deliver l.now
      | .deliverAfter _ => s }

def explicitPartition (l : Link μ) : Link μ × List (Event μ) :=
  clear { l with stateAB := .explicitPartition, stateBA := .explicitPartition }

/-- Set the state of one direction. -/
def setState (l : Link μ) (source target : IpAddr) (state : State) : Link μ :=
  if ipLt source target then { l with stateAB := state } else { l with stateBA := state }

def partitionOneway (l : Link μ) (source target : IpAddr) : Link μ × List (Event μ) :=
  ({ l.setState source target .explicitPartition with
      sent := l.sent.filter fun s => s.src.ip ≠ source },
    (l.sent.filter fun s => s.src.ip = source).map fun s => .dropped s.envelope)

def repairOneway (l : Link μ) (source target : IpAddr) : Link μ := l.setState source target .healthy

def explicitRepair (l : Link μ) : Link μ := { l with stateAB := .healthy, stateBA := .healthy }

/-- Does the draw break the link? -/
def partitions (l : Link μ) (o : Outcome) : Bool :=
  (l.stateAB == .healthy || l.stateBA == .healthy) && o.randPartition

/-- Does the draw repair the link? -/
def repairs (l : Link μ) (o : Outcome) : Bool :=
  !l.partitions o && (l.stateAB == .randPartition || l.stateBA == .randPartition) && o.randRepair

def randPartitionOrRepair (l : Link μ) (o : Outcome) : Link μ × List (Event μ) :=
  if l.partitions o then clear { l with stateAB := .randPartition, stateBA := .randPartition }
  else if l.repairs o then (l.release, [])
  else (l, [])

def enqueue (l : Link μ) (o : Outcome) (e : Envelope μ) : Link μ × List (Event μ) :=
  match l.getStateForMessage e.src.ip e.dst.ip with
  | .healthy => (push (.deliverAfter (l.now + o.delay)), [])
  | .hold => (push .hold, [])
  | _ => (l, [.dropped e])
where
  push (status : DeliveryStatus) : Link μ :=
    { l with sent := l.sent ++ [⟨e.src, e.dst, status, e.message⟩] }

def enqueueMessage (l : Link μ) (o : Outcome) (e : Envelope μ) :
    Option (Link μ × List (Event μ)) := do
  let (l, faults) := l.randPartitionOrRepair o
  let (l, drops) := l.enqueue o e
  let (l, moves) ← l.processDeliverables
  some (l, faults ++ .entered e :: drops ++ moves)

def tick (l : Link μ) (now : Nat) : Option (Link μ × List (Event μ)) :=
  processDeliverables { l with now := now }

section
variable {H : Type} (receive : H → Envelope μ → H × Option μ)

/-- What the host answers goes back over the link. -/
def answer (l : Link μ) (o : Outcome) (e : Envelope μ) :
    Option μ → Option (Link μ × List (Event μ))
  | none => some (l, [])
  | some message => l.enqueueMessage o ⟨e.dst, e.src, message⟩

/-- The loop of `deliver_messages`: hand each message over, and send back what the host
answers.  The draws are those of the answers, in order. -/
def deliverLoop (addr : IpAddr) (draw : Nat → Outcome) :
    List (Envelope μ) → H → Link μ → Option (Link μ × H × List (Event μ))
  | [], host, l => some (l, host, [])
  | e :: pending, host, l => do
    let (host, reply) := receive host e
    let (l', answered) ← l.answer (draw pending.length) e reply
    let (l', host, events) ← deliverLoop addr draw pending host l'
    some (l', host, .delivered addr e l.now :: answered ++ events)

/-- `deliver_messages`, to the host at `addr`. -/
def deliverMessages (l : Link μ) (addr : IpAddr) (draw : Nat → Outcome) (host : H) :
    Option (Link μ × H × List (Event μ)) :=
  deliverLoop receive addr draw (l.readyFor addr) host
    { l with deliverable := l.deliverable.insert addr [] }

end

/-- `SentRef::deliver`, on the message at a position. -/
def deliverSent (l : Link μ) (i : Nat) : Link μ := { l with sent := l.sent.modify i (Sent.deliver l.now) }

theorem setState_fields (l : Link μ) (source target : IpAddr) (state : State) :
    (l.setState source target state).sent = l.sent
      ∧ (l.setState source target state).deliverable = l.deliverable
      ∧ (l.setState source target state).now = l.now := by
  unfold setState
  split <;> exact ⟨rfl, rfl, rfl⟩

/-! ## 3. Calls as data -/

end Link

/-- Something that happens to a link.  A delivery is to a host in some state. -/
inductive LinkOp (μ H : Type) where
  | send (o : Outcome) (e : Envelope μ)
  | tick (now : Nat)
  | hold
  | release
  | partition
  | partitionOneway (source target : IpAddr)
  | repair
  | repairOneway (source target : IpAddr)
  | deliverSent (i : Nat)
  | deliver (addr : IpAddr) (draw : Nat → Outcome) (host : H)

namespace Link

section
variable {μ H : Type} (receive : H → Envelope μ → H × Option μ)

def step (l : Link μ) : LinkOp μ H → Option (Link μ × List (Event μ))
  | .send o e => l.enqueueMessage o e
  | .tick now => l.tick now
  | .hold => some (l.hold, [])
  | .release => some (l.release, [])
  | .partition => some l.explicitPartition
  | .partitionOneway source target => some (l.partitionOneway source target)
  | .repair => some (l.explicitRepair, [])
  | .repairOneway source target => some (l.repairOneway source target, [])
  | .deliverSent i => some (l.deliverSent i, [])
  | .deliver addr draw host => (l.deliverMessages receive addr draw host).map fun r => (r.1, r.2.2)

/-- The link after a sequence of calls, and all that happened. -/
def run (l : Link μ) : List (LinkOp μ H) → Option (Link μ × List (Event μ))
  | [] => some (l, [])
  | op :: ops => do
    let (l, first) ← l.step receive op
    let (l, rest) ← run l ops
    some (l, first ++ rest)

end

/-! ## 4. `process_deliverables` is a stable split -/

section
variable {μ : Type}

/-- The time of a message that is due. -/
def dueTime (now : Nat) (s : Sent μ) : Option Nat :=
  match s.status with
  | .deliverAfter time => if time ≤ now then some time else none
  | .hold => none

/-- The messages that are due, with their times, in order. -/
def due (now : Nat) (ss : List (Sent μ)) : List (Envelope μ × Nat) :=
  ss.filterMap fun s => (dueTime now s).map fun time => (s.envelope, time)

/-- The messages that wait on. -/
def waiting (now : Nat) (ss : List (Sent μ)) : List (Sent μ) :=
  ss.filter fun s => (dueTime now s).isNone

/-- Hand messages over to the second queue, one after the other. -/
def pushAll (l : Link μ) (es : List (Envelope μ)) : Link μ := es.foldl pushReady l

theorem processFrom_eq : ∀ (rest kept : List (Sent μ)) (i gone : Nat) (l : Link μ),
    l.sent = kept ++ rest → i = kept.length + gone →
      processFrom rest.length i gone l
        = some (pushAll { l with sent := kept ++ waiting l.now rest } ((due l.now rest).map Prod.fst),
          (due l.now rest).map fun p => .ready p.1 p.2) := by
  intro rest
  induction rest with
  | nil =>
    intro kept i gone l hs _
    rw [List.append_nil] at hs
    simp [processFrom, due, waiting, pushAll, ← hs]
  | cons s rest ih =>
    intro kept i gone l hs hi
    have hindex : i - gone = kept.length := by omega
    have hget : l.sent[kept.length]? = some s := by
      rw [hs, List.getElem?_append_right (Nat.le_refl _), Nat.sub_self]
      rfl
    -- a message that waits on joins those kept
    have hkeep : dueTime l.now s = none → processFrom rest.length (i + 1) gone l
        = some (pushAll { l with sent := kept ++ waiting l.now (s :: rest) }
            ((due l.now (s :: rest)).map Prod.fst),
          (due l.now (s :: rest)).map fun p => .ready p.1 p.2) := by
      intro hnone
      rw [ih (kept ++ [s]) (i + 1) gone l (by rw [hs, List.append_assoc]; rfl)
        (by rw [List.length_append]; simp only [List.length_singleton]; omega)]
      simp [waiting, due, hnone]
    rw [List.length_cons, processFrom, hindex, hget]
    cases hst : s.status with
    | hold =>
      simp only [Option.bind_eq_bind, Option.bind_some, hst]
      exact hkeep (by rw [dueTime, hst])
    | deliverAfter time =>
      simp only [Option.bind_eq_bind, Option.bind_some, hst]
      by_cases hdue : time ≤ l.now
      · have herase : l.sent.eraseIdx kept.length = kept ++ rest := by
          rw [hs, List.eraseIdx_append_of_length_le (Nat.le_refl _), Nat.sub_self]
          rfl
        have hsome : dueTime l.now s = some time := by rw [dueTime, hst]; exact if_pos hdue
        rw [if_pos hdue, herase, ih kept (i + 1) (gone + 1)
          (({ l with sent := kept ++ rest } : Link μ).pushReady s.envelope) rfl (by omega)]
        simp only [Option.bind_some, due, waiting, List.filterMap_cons, hsome, Option.map_some,
          List.map_cons, List.filter_cons_of_neg, Option.isNone_some, Bool.false_eq_true,
          not_false_eq_true]
        rfl
      · rw [if_neg hdue]
        exact hkeep (by rw [dueTime, hst]; exact if_neg hdue)

/-- The link after `process_deliverables`. -/
def settled (l : Link μ) : Link μ :=
  pushAll { l with sent := waiting l.now l.sent } ((due l.now l.sent).map Prod.fst)

/-- **`process_deliverables` never indexes out of range**: the messages that are due move in order,
the others stay in order. -/
theorem processDeliverables_eq (l : Link μ) :
    l.processDeliverables
      = some (l.settled, (due l.now l.sent).map fun p => .ready p.1 p.2) :=
  processFrom_eq l.sent [] 0 0 l rfl rfl

theorem readyFor_pushReady (l : Link μ) (e : Envelope μ) (host : IpAddr) :
    (l.pushReady e).readyFor host = l.readyFor host ++ (if e.dst.ip = host then [e] else []) := by
  unfold readyFor pushReady
  rw [IndexMap.get?_insert]
  by_cases h : host = e.dst.ip
  · rw [if_pos h, if_pos h.symm, h]
    rfl
  · rw [if_neg h, if_neg (fun e => h e.symm), List.append_nil]

theorem pushAll_fields (l : Link μ) (es : List (Envelope μ)) :
    (l.pushAll es).sent = l.sent ∧ (l.pushAll es).now = l.now
      ∧ (l.pushAll es).stateAB = l.stateAB ∧ (l.pushAll es).stateBA = l.stateBA := by
  induction es generalizing l with
  | nil => exact ⟨rfl, rfl, rfl, rfl⟩
  | cons e es ih => exact ih (l.pushReady e)

theorem readyFor_pushAll (l : Link μ) (es : List (Envelope μ)) (host : IpAddr) :
    (l.pushAll es).readyFor host = l.readyFor host ++ es.filter fun e => e.dst.ip = host := by
  induction es generalizing l with
  | nil => exact (List.append_nil _).symm
  | cons e es ih =>
    rw [pushAll, List.foldl_cons]
    refine (ih (l.pushReady e)).trans ?_
    rw [readyFor_pushReady, List.append_assoc]
    congr 1
    by_cases h : e.dst.ip = host
    · rw [if_pos h, List.filter_cons_of_pos (by simpa using h)]
      rfl
    · rw [if_neg h, List.filter_cons_of_neg (by simpa using h)]
      rfl

/-- What `process_deliverables` leaves in the first queue, and does not touch. -/
theorem settled_fields (l : Link μ) :
    l.settled.sent = waiting l.now l.sent ∧ l.settled.now = l.now
      ∧ l.settled.stateAB = l.stateAB ∧ l.settled.stateBA = l.stateBA :=
  pushAll_fields _ _

theorem readyFor_settled (l : Link μ) (host : IpAddr) :
    l.settled.readyFor host
      = l.readyFor host ++ ((due l.now l.sent).map Prod.fst).filter fun e => e.dst.ip = host :=
  readyFor_pushAll _ _ host

/-- The link of a send just before `process_deliverables`. -/
def queued (l : Link μ) (o : Outcome) (e : Envelope μ) : Link μ :=
  ((l.randPartitionOrRepair o).1.enqueue o e).1

/-- A send returns. -/
theorem enqueueMessage_eq (l : Link μ) (o : Outcome) (e : Envelope μ) :
    l.enqueueMessage o e = some ((l.queued o e).settled,
      (l.randPartitionOrRepair o).2 ++ .entered e :: ((l.randPartitionOrRepair o).1.enqueue o e).2
        ++ (due (l.queued o e).now (l.queued o e).sent).map fun p => .ready p.1 p.2) := by
  unfold enqueueMessage
  dsimp only
  rw [processDeliverables_eq]
  rfl

end

end Link

end Turmoil.Top
