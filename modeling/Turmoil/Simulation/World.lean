/-
# Hosts, their clocks and their software

`host.rs`, `rt.rs` and `world.rs`, as far as a step of the simulation reads them.  A host is a timer
and the state of its network software; the world is all hosts, the topology between them, and the
host that is being run.  Every host has a runtime of its own, with a clock that moves only while the
runtime is run, and a handle as long as its software has not ended.

What the software does is given: in its turn it changes the state of its own host, sends messages,
makes the fault calls and reads its clock (`Turn`).  Of the runtime, one number is given: how far its
clock moves when a task sleeps for a duration (`Given.slept`); timers of the runtime are coarser than a
`Duration`.  What happens after a panic is left out.
-/
import Turmoil.Lib.Pool
import Turmoil.Top.Delivery

namespace Turmoil.Simulation

open Turmoil.Net (IpAddr SocketAddr)
open Turmoil.Top

/-! ## 1. Timers -/

/-- The calls that do not return. -/
inductive SimPanic where
  | latency (panic : LatencyPanic)
  | alreadyRegistered
  | missingHost
  | hostInstantNotSet
  | notAHost
  deriving DecidableEq, Repr

/-- A call of the topology or of `Duration` inside one of the simulation. -/
def lift {α : Type} (x : Except LatencyPanic α) : Except SimPanic α := x.mapError .latency

structure HostTimer where
  elapsed : Duration
  now : Option Nat
  startOffset : Duration
  sinceEpoch : Duration
  deriving DecidableEq, Repr

namespace HostTimer

def new (startOffset sinceEpoch : Duration) : HostTimer :=
  ⟨.fromMillis 0, none, startOffset, sinceEpoch⟩

def tick (t : HostTimer) (duration : Duration) : Except SimPanic HostTimer := do
  let elapsed ← lift (t.elapsed.add duration)
  .ok { t with elapsed := elapsed }

/-- `HostTimer::now`. -/
def setNow (t : HostTimer) (now : Nat) : HostTimer := { t with now := some now }

/-- `Instant::elapsed`, at an instant: 0 if the other is later.  Two instants are never further apart
than a duration can say. -/
def since (now instant : Nat) : Except SimPanic Duration :=
  if h : instant - now < 2 ^ 64 * 10 ^ 9 then .ok ⟨instant - now, h⟩
  else .error (.latency .outOfRange)

/-- `HostTimer::elapsed`, read when the clock of the runtime shows `instant`. -/
def elapsedAt (t : HostTimer) (instant : Nat) : Except SimPanic Duration :=
  match t.now with
  | none => .error .hostInstantNotSet
  | some now => do
    let runDuration ← since now instant
    lift (t.elapsed.add runDuration)

def simElapsedAt (t : HostTimer) (instant : Nat) : Except SimPanic Duration := do
  let elapsed ← t.elapsedAt instant
  lift (t.startOffset.add elapsed)

/-- `HostTimer::since_epoch`. -/
def sinceEpochAt (t : HostTimer) (instant : Nat) : Except SimPanic Duration := do
  let simElapsed ← t.simElapsedAt instant
  lift (t.sinceEpoch.add simElapsed)

end HostTimer

/-! ## 2. The world -/

structure Host (H : Type) where
  timer : HostTimer
  net : H

structure World (μ H : Type) where
  hosts : IndexMap IpAddr (Host H)
  topology : Topology μ
  current : Option IpAddr

/-- What the software of a host does to the world. -/
inductive Act (μ H : Type) where
  | change (f : H → H)
  | send (draw : Draw) (e : Envelope μ)
  | fault (f : Fault) (a b : IpAddr)

namespace World

variable {μ H : Type}

def new (latency : Latency) : World μ H := ⟨IndexMap.empty, Topology.new latency, none⟩

/-- Every host that is there gets a link to the new one. -/
def register (w : World μ H) (addr : IpAddr) (timer : HostTimer) (net : H) :
    Except SimPanic (World μ H) :=
  if w.hosts.contains addr then .error .alreadyRegistered
  else do
    let topology ←
      lift (w.hosts.keys.foldlM (fun t existing => t.register existing addr) w.topology)
    .ok { w with topology := topology, hosts := w.hosts.insert addr ⟨timer, net⟩ }

/-- `World::tick`. -/
def tick (w : World μ H) (addr : IpAddr) (duration : Duration) : Except SimPanic (World μ H) :=
  match w.hosts.get? addr with
  | none => .error .missingHost
  | some host => do
    let timer ← host.timer.tick duration
    .ok { w with hosts := w.hosts.modify addr fun host => { host with timer := timer } }

/-- An act of the host that is being run. -/
def perform (w : World μ H) : Act μ H → Except SimPanic (World μ H × List (TopEvent μ))
  | .change f =>
    match w.current with
    | none => .error .missingHost
    | some addr =>
      if w.hosts.contains addr then
        .ok ({ w with hosts := w.hosts.modify addr fun host => { host with net := f host.net } }, [])
      else .error .missingHost
  | .send draw e => do
    let (topology, events, _) ← lift (w.topology.sendMessage draw e)
    .ok ({ w with topology := topology }, events)
  | .fault f a b => do
    let topology ← lift (w.topology.fault f a b)
    .ok ({ w with topology := topology }, w.topology.faultEvents f a b)

def performAll (w : World μ H) : List (Act μ H) → Except SimPanic (World μ H × List (TopEvent μ))
  | [] => .ok (w, [])
  | act :: acts => do
    let (w, first) ← w.perform act
    let (w, rest) ← w.performAll acts
    .ok (w, first ++ rest)

end World

/-! ## 3. Runtimes -/

inductive Kind where
  | client
  | host
  deriving DecidableEq, Repr

/-- How the software stands at the end of its turn: of one that has ended, what its join handle says. -/
inductive Exit where
  | running
  | finished
  | failed
  | cancelled
  deriving DecidableEq, Repr

structure Rt where
  kind : Kind
  clock : Nat
  handle : Bool
  deriving DecidableEq, Repr

namespace Rt

def isSoftwareRunning (rt : Rt) : Bool := rt.handle

def isClient (rt : Rt) : Bool := rt.kind == .client

/-- `Rt::tick`, over which the clock moves by `slept`.  An error is the software's. -/
def tick (rt : Rt) (slept : Nat) (exit : Exit) : Rt × Except Unit Bool :=
  let rt := { rt with clock := rt.clock + slept }
  if rt.handle then
    match exit with
    | .running => (rt, .ok false)
    | .finished => ({ rt with handle := false }, .ok true)
    | .cancelled => ({ rt with handle := false }, .ok true)
    | .failed => ({ rt with handle := false }, .error ())
  else (rt, .ok true)

/-- `Rt::crash`, which says whether there were tasks to cancel.  A new runtime shows `instant`. -/
def crash (rt : Rt) (instant : Nat) : Except SimPanic (Rt × Bool) :=
  if rt.kind = .host then
    if rt.handle then .ok ({ rt with handle := false, clock := instant }, true) else .ok (rt, false)
  else .error .notAHost

def bounce (rt : Rt) (instant : Nat) : Except SimPanic (Rt × Bool) :=
  if rt.kind = .host then .ok ({ rt with handle := true, clock := instant }, true)
  else .error .notAHost

end Rt

/-- A turn of a host: the draws of what it answers to the messages it is handed, the moments at which
it reads its clock, what it does, and how its software stands then. -/
structure Turn (μ H : Type) where
  answers : Pair → Nat → Draw
  clocks : List Nat
  acts : List (Act μ H)
  exit : Exit

/-- What happens in a simulation: something on a link, or a host reads its clock, when the clock of
its runtime has moved by `offset` since the turn began. -/
inductive SimEvent (μ : Type) where
  | link (ev : TopEvent μ)
  | clock (addr : IpAddr) (offset : Nat) (simElapsed : Duration)

/-- What happens on the links. -/
def onLinks {μ : Type} (ev : List (SimEvent μ)) : List (TopEvent μ) :=
  ev.filterMap fun
    | .link ev => some ev
    | .clock .. => none

/-- What the simulation is built on. -/
structure Given (μ H : Type) where
  /-- `Host::receive_from_network`. -/
  receive : H → Envelope μ → H × Option μ
  /-- How far the clock of a paused runtime moves when a task sleeps. -/
  slept : Duration → Nat

/-! ## 4. The simulation -/

structure Config where
  duration : Duration
  tick : Duration
  randomNodeOrder : Bool
  deriving DecidableEq, Repr

structure Sim (μ H : Type) where
  config : Config
  world : World μ H
  rts : IndexMap IpAddr Rt
  sinceEpoch : Duration
  elapsed : Duration
  steps : Nat

/-- Why a step ends the simulation. -/
inductive Failure where
  | software
  /-- "Ran for duration: {:?} steps: {} without completing". -/
  | deadline (duration : Duration) (steps : Nat)
  deriving DecidableEq, Repr

namespace Sim

variable {μ H : Type}

def new (config : Config) (latency : Latency) (sinceEpoch : Duration) : Sim μ H :=
  ⟨config, World.new latency, IndexMap.empty, sinceEpoch, .fromMillis 0, 1⟩

/-- `Sim::client` and `Sim::host`. -/
def add (s : Sim μ H) (kind : Kind) (addr : IpAddr) (instant : Nat) (net : H) :
    Except SimPanic (Sim μ H) := do
  let world ← s.world.register addr (.new s.elapsed s.sinceEpoch) net
  .ok { s with world := world, rts := s.rts.insert addr ⟨kind, instant, true⟩ }

/-- The body of the loop of `crash`: what is dropped acts as the host. -/
def crashOne (s : Sim μ H) (addr : IpAddr) (instant : Nat) (drops : List (Act μ H)) :
    Except SimPanic (Sim μ H × List (TopEvent μ)) :=
  match s.rts.get? addr with
  | none => .error .missingHost
  | some rt => do
    let (rt, cancelled) ← rt.crash instant
    let (world, events) ←
      ({ s.world with current := some addr }).performAll (if cancelled then drops else [])
    .ok ({ s with world := world, rts := s.rts.modify addr fun _ => rt }, events)

/-- The body of the loop of `bounce`. -/
def bounceOne (s : Sim μ H) (addr : IpAddr) (instant : Nat) (drops : List (Act μ H)) :
    Except SimPanic (Sim μ H × List (TopEvent μ)) :=
  match s.rts.get? addr with
  | none => .error .missingHost
  | some rt => do
    let (rt, cancelled) ← rt.bounce instant
    let (world, events) ←
      ({ s.world with current := some addr }).performAll (if cancelled then drops else [])
    .ok ({ s with world := world, rts := s.rts.modify addr fun _ => rt }, events)

/-- No host is current. -/
def idle (s : Sim μ H) : Sim μ H := { s with world := { s.world with current := none } }

/-- A call for each of some hosts, each with the instant of its new runtime and what is dropped. -/
def forHosts (f : Sim μ H → IpAddr → Nat → List (Act μ H) →
    Except SimPanic (Sim μ H × List (TopEvent μ))) :
    Sim μ H → List (IpAddr × Nat × List (Act μ H)) → Except SimPanic (Sim μ H × List (TopEvent μ))
  | s, [] => .ok (s.idle, [])
  | s, (addr, instant, drops) :: hosts => do
    let (s, first) ← f s addr instant drops
    let (s, rest) ← forHosts f s hosts
    .ok (s, first ++ rest)

section
variable (given : Given μ H)

/-- What a host reads on its clock in a turn that began at `instant`. -/
def readings (timer : HostTimer) (addr : IpAddr) (instant : Nat) :
    List Nat → Except SimPanic (List (SimEvent μ))
  | [] => .ok []
  | offset :: offsets => do
    let value ← timer.simElapsedAt (instant + offset)
    let rest ← readings timer addr instant offsets
    .ok (.clock addr offset value :: rest)

/-- The end of a turn: the runtime of the host is run, with `world` as the software left it.  An error
is the software's: then the host stays current, and its timer is not ticked. -/
def endTurn (s : Sim μ H) (addr : IpAddr) (rt : Rt) (exit : Exit) (world : World μ H) :
    Except SimPanic (Sim μ H × Except Unit Bool) :=
  match rt.tick (given.slept s.config.tick) exit with
  | (rt', .error failure) =>
    .ok ({ s with world := world, rts := s.rts.modify addr fun _ => rt' }, .error failure)
  | (rt', .ok finished) => do
    let world ← ({ world with current := none }).tick addr s.config.tick
    .ok ({ s with world := world, rts := s.rts.modify addr fun _ => rt' },
      .ok (!rt.isClient || finished))

/-- The turn of one host, the body of the loop of `step`. -/
def turn (s : Sim μ H) (addr : IpAddr) (turn : Turn μ H) :
    Except SimPanic (Sim μ H × List (SimEvent μ) × Except Unit Bool) :=
  match s.world.hosts.get? addr, s.rts.get? addr with
  | some host, some rt => do
    let (topology, net, delivered) ←
      lift (s.world.topology.deliverMessages given.receive addr turn.answers host.net)
    let timer := host.timer.setNow rt.clock
    let clocks ← readings timer addr rt.clock turn.clocks
    let (world, events) ← World.performAll
      { hosts := s.world.hosts.modify addr fun _ => ⟨timer, net⟩
        topology := topology
        current := some addr } turn.acts
    let (s, result) ← s.endTurn given addr rt turn.exit world
    .ok (s, delivered.map .link ++ clocks ++ events.map .link, result)
  | _, _ => .error .missingHost

/-- The turns of a step, until one fails. -/
def turns (ts : IpAddr → Turn μ H) :
    List IpAddr → Sim μ H → Bool →
      Except SimPanic (Sim μ H × List (SimEvent μ) × Except Unit Bool)
  | [], s, isFinished => .ok (s, [], .ok isFinished)
  | addr :: addrs, s, isFinished => do
    let (s, first, result) ← s.turn given addr (ts addr)
    match result with
    | .error failure => .ok (s, first, .error failure)
    | .ok finished =>
      let (s, rest, result) ← turns ts addrs s (isFinished && finished)
      .ok (s, first ++ rest, result)

/-- The hosts whose software runs, or does not, in the order of their registration. -/
def withSoftware (s : Sim μ H) (running : Bool) : List IpAddr :=
  (s.rts.entries.filter fun e => e.2.isSoftwareRunning == running).map Prod.fst

/-- `Sim::step`. -/
def step (s : Sim μ H) (ts : IpAddr → Turn μ H) (order : Shuffle) :
    Except SimPanic (Sim μ H × List (SimEvent μ) × Except Failure Bool) := do
  let tick := s.config.tick
  let moved := s.world.topology.tickEvents (given.slept tick)
  let running := s.withSoftware true
  let stopped := s.withSoftware false
  let running := if s.config.randomNodeOrder then shuffle order running else running
  let ticked : Sim μ H :=
    { s with world := { s.world with topology := s.world.topology.tickBy (given.slept tick) } }
  let (s, events, result) ← turns given ts running ticked true
  let events := moved.map .link ++ events
  match result with
  | .error _ => .ok (s, events, .error .software)
  | .ok isFinished =>
    let world ← stopped.foldlM (fun w addr => w.tick addr tick) s.world
    let elapsed ← lift (s.elapsed.add tick)
    let s := { s with world := world, elapsed := elapsed, steps := s.steps + 1 }
    if ¬ elapsed ≤ s.config.duration ∧ isFinished = false then
      .ok (s, events, .error (.deadline s.config.duration s.steps))
    else .ok (s, events, .ok isFinished)

/-- The loop of `Sim::run`: the steps that are left to take, and what is done in each. -/
def runLoop (ts : Nat → IpAddr → Turn μ H) (order : Nat → Shuffle) :
    Nat → Sim μ H → Option (Except SimPanic (Sim μ H × Except Failure Unit))
  | 0, _ => none
  | fuel + 1, s =>
    match s.step given (ts s.steps) (order s.steps) with
    | .error panic => some (.error panic)
    | .ok (s, _, .error failure) => some (.ok (s, .error failure))
    | .ok (s, _, .ok true) => some (.ok (s, .ok ()))
    | .ok (s, _, .ok false) => runLoop ts order fuel s

/-- `Sim::run`. -/
def run (ts : Nat → IpAddr → Turn μ H) (order : Nat → Shuffle) (fuel : Nat) (s : Sim μ H) :
    Option (Except SimPanic (Sim μ H × Except Failure Unit)) :=
  if s.rts.values.any Rt.isClient then runLoop given ts order fuel s else some (.ok (s, .ok ()))

end

end Sim

end Turmoil.Simulation
