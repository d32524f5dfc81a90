/-
# The network as a whole

`Net`, `Fabric` and the loop of the fixtures: any number of hosts, each with a kernel, and one
scheduler that takes what the hosts send, asks the rules, and hands packets over at once or when they
are due.

The hosts are added before the net is entered, and are the same from then on.  The names of hosts are
resolved by `Dns` (`Net.Dns`); here a host comes with its addresses.

A turn of the scheduler has three parts, in this order: what is due is handed over, every host is asked
for what it sends, and each packet gets its verdict.  So a packet that is handed over in a turn can be
answered in the same turn, and the answer has its verdict before the turn ends.  Nothing here looks into
a packet but the rules and the kernels: what is proved of the net (`Network.Authentic`,
`Network.Schedule`, `Network.TwoHosts`) is proved for every rule, and the rules are a parameter.

The two counters are as wide as the source's, so that adding a host or a rule can fail to return.  The
loops of the kernels run on fuel, which is part of the step `tick`: a turn without enough of it does
not return either.
-/
import Turmoil.Net.Calls
import Turmoil.Net.Scheduler

namespace Turmoil.Network

open Turmoil.Net (IpAddr SocketAddr NetError Panic Kernel KernelConfig Packet Syscall Reply Verdict
  Scheduler Scheduled Fate TickRecord evaluate expect addDuration bind_eq_ok)

/-! ## 1. The fabric -/

abbrev HostId := Nat

structure Host where
  addrs : List IpAddr
  kernel : Kernel

/-- The hosts by their identifiers, and the owner of every address.  There is no way to remove a host
or to give an address back. -/
structure Fabric where
  hosts : IndexMap HostId Host
  ipToHost : IndexMap IpAddr HostId
  nextId : Nat
  defaultCfg : KernelConfig

namespace Fabric

def new (cfg : KernelConfig) : Fabric := ⟨IndexMap.empty, IndexMap.empty, 0, cfg⟩

/-- The checks of `try_add_host`, before anything is changed. -/
def validate (f : Fabric) : List IpAddr → Except NetError Unit
  | [] => .ok ()
  | a :: addrs =>
    if a.isLoopback then .error .invalidInput
    else if f.ipToHost.contains a then .error .addrInUse
    else f.validate addrs

/-- The identifier is 32 bits wide. -/
def tryAddHost (f : Fabric) (addrs : List IpAddr) : Except Panic (Except NetError (Fabric × HostId)) :=
  match f.validate addrs with
  | .error e => .ok (.error e)
  | .ok () =>
    let id := f.nextId
    if id + 1 < 2 ^ 32 then
      .ok (.ok ({ f with
        hosts := f.hosts.insert id ⟨addrs, Kernel.host f.defaultCfg addrs⟩
        ipToHost := addrs.foldl (fun m a => m.insert a id) f.ipToHost
        nextId := id + 1 }, id))
    else .error (.expect "attempt to add with overflow")

def addHost (f : Fabric) (addrs : List IpAddr) : Except Panic (Fabric × HostId) := do
  match ← f.tryAddHost addrs with
  | .ok r => pure r
  | .error _ => .error (.expect "add_host validation failed")

def kernel (f : Fabric) (id : HostId) : Except Panic Kernel := do
  let host ← expect (f.hosts.get? id) "HostId points at a live host"
  pure host.kernel

/-- A change through `kernel_mut`. -/
def put (f : Fabric) (id : HostId) (k : Kernel) : Fabric :=
  { f with hosts := f.hosts.modify id fun host => { host with kernel := k } }

/-- The loop of `egress_all`; the fuel is for the loop in each host. -/
def egressHosts (fuel : Nat) : List HostId → Fabric → Except Panic (Fabric × List Packet)
  | [], f => pure (f, [])
  | id :: ids, f => do
    let k ← f.kernel id
    let (k, out) ← k.egress fuel
    let (f, more) ← egressHosts fuel ids (f.put id k)
    pure (f, out ++ more)

def egressAll (f : Fabric) (fuel : Nat) : Except Panic (Fabric × List Packet) :=
  egressHosts fuel f.hosts.keys f

/-- A packet for an address that nobody owns is dropped. -/
def deliver (f : Fabric) (pkt : Packet) : Except Panic Fabric :=
  match f.ipToHost.get? pkt.dst with
  | none => pure f
  | some dst => do
    let k ← f.kernel dst
    let k ← k.deliver pkt
    pure (f.put dst k)

end Fabric

/-! ## 2. The net -/

/-- The rules have their numbers; `ρ` is what a rule keeps. -/
structure Net (ρ : Type) where
  fabric : Fabric
  current : Option HostId
  rules : List (Nat × ρ)
  nextRuleId : Nat
  scheduler : Scheduler Packet

namespace Net

variable {ρ : Type} (onPacket : ρ → Packet → Verdict × ρ)

def withConfig (cfg : KernelConfig) : Net ρ := ⟨Fabric.new cfg, none, [], 1, Scheduler.new⟩

/-- `Net::add_host`; the first host becomes current. -/
def addHost (n : Net ρ) (addrs : List IpAddr) : Except Panic (Net ρ) := do
  let (fabric, id) ← n.fabric.addHost addrs
  pure { n with fabric := fabric, current := n.current <|> some id }

def addHosts (n : Net ρ) (hosts : List (List IpAddr)) : Except Panic (Net ρ) :=
  hosts.foldlM addHost n

/-- The number is 64 bits wide. -/
def installRule (n : Net ρ) (rule : ρ) : Except Panic (Net ρ) :=
  if n.nextRuleId + 1 < 2 ^ 64 then
    .ok { n with rules := n.rules ++ [(n.nextRuleId, rule)], nextRuleId := n.nextRuleId + 1 }
  else .error (.expect "attempt to add with overflow")

/-- The guard of a rule is dropped.  A rule that is not there is no error. -/
def uninstallRule (n : Net ρ) (id : Nat) : Net ρ :=
  { n with rules := n.rules.filter fun r => r.1 != id }

/-- A rule is asked, and keeps its number. -/
def onRule (r : Nat × ρ) (pkt : Packet) : Verdict × Nat × ρ :=
  ((onPacket r.2 pkt).1, r.1, (onPacket r.2 pkt).2)

/-! ## 3. A turn of the scheduler -/

/-- The packets that are due, in the order of the queue: the kernels see them one by one. -/
def deliverAll : List Packet → Fabric → Except Panic Fabric
  | [], f => pure f
  | pkt :: pkts, f => do
    let f ← f.deliver pkt
    deliverAll pkts f

/-- The body of the loop over the packets the hosts have sent. -/
def dispose (n : Net ρ) (pkt : Packet) : Except Panic (Net ρ × Verdict × Fate Packet) := do
  let (v, rules) := evaluate (onRule onPacket) n.rules pkt
  let (scheduler, fate) ← n.scheduler.dispose pkt v
  let fabric ← match fate with
    | .delivered => n.fabric.deliver pkt
    | _ => pure n.fabric
  pure ({ n with fabric := fabric, rules := rules, scheduler := scheduler }, v, fate)

def disposeAll : Net ρ → List Packet → Except Panic (Net ρ × List (Packet × Verdict × Fate Packet))
  | n, [] => pure (n, [])
  | n, pkt :: pkts => do
    let (n, v, fate) ← n.dispose onPacket pkt
    let (n, sent) ← disposeAll n pkts
    pure (n, (pkt, v, fate) :: sent)

/-- `Scheduler::tick`. -/
def tick (n : Net ρ) (dt fuel : Nat) : Except Panic (Net ρ × TickRecord Packet) := do
  let now ← addDuration n.scheduler.now dt
  let readyEnd :=
    (n.scheduler.pending.findIdx? fun e => now < e.deliverAt).getD n.scheduler.pending.length
  let due := n.scheduler.pending.take readyEnd
  let scheduler : Scheduler Packet :=
    { n.scheduler with now := now, pending := n.scheduler.pending.drop readyEnd }
  let fabric ← deliverAll (due.map Scheduled.pkt) n.fabric
  let (fabric, batch) ← fabric.egressAll fuel
  let (n, sent) ← disposeAll onPacket { n with fabric := fabric, scheduler := scheduler } batch
  pure (n, ⟨now, due, sent⟩)

/-! ## 4. Steps -/

/-- What happens to a net that is entered: the harness says whose turn it is, the application of the
current host makes a call, rules come and go, and the time goes on. -/
inductive Op (ρ : Type) where
  | setCurrent (id : HostId)
  | call (c : Syscall)
  | rule (r : ρ)
  | uninstall (id : Nat)
  | tick (dt fuel : Nat)

/-- A call, on which host, with its kernel before and after. -/
structure Called where
  host : HostId
  before : Kernel
  call : Syscall
  reply : Reply
  after : Kernel

/-- A turn of the scheduler, or a call. -/
inductive Event where
  | called (c : Called)
  | ticked (r : TickRecord Packet)

def step (n : Net ρ) : Op ρ → Except Panic (Net ρ × List Event)
  | .setCurrent id => .ok ({ n with current := some id }, [])
  | .call c => do
    let id ← expect n.current "no current host — register one with Net::add_host()"
    let k ← n.fabric.kernel id
    let (k', r) ← k.syscall c
    pure ({ n with fabric := n.fabric.put id k' }, [.called ⟨id, k, c, r, k'⟩])
  | .rule r => do
    let n ← n.installRule r
    pure (n, [])
  | .uninstall id => .ok (n.uninstallRule id, [])
  | .tick dt fuel => do
    let (n, r) ← n.tick onPacket dt fuel
    pure (n, [.ticked r])

/-- The net after some steps, if all of them return, and what happened. -/
def run : Net ρ → List (Op ρ) → Except Panic (Net ρ × List Event)
  | n, [] => pure (n, [])
  | n, op :: ops => do
    let (n, first) ← n.step onPacket op
    let (n, rest) ← run n ops
    pure (n, first ++ rest)

end Net

end Turmoil.Network
