/-
# Two hosts on a fabric

Two kernels and the packets between them.  `Fabric::deliver` hands a packet to the host that claims
its destination; when, and whether, is not decided there, so here a packet on the wire can be
delivered or lost at any time and in any order.  A packet is delivered at most once.

A run is a list of operations, and what it leaves behind is read off its events: what the
application of either end handed over and read, and whether it shut the stream.  `Link` names the
two ends of one connection by their addresses and descriptors.
-/
import Turmoil.Net.Progress

namespace Turmoil.Net

/-! ## 1. The state -/

/-- The two hosts. -/
inductive Side where
  | left
  | right
  deriving DecidableEq, Repr

def Side.other : Side → Side
  | .left => .right
  | .right => .left

@[simp] theorem Side.other_other (x : Side) : x.other.other = x := by
  cases x <;> rfl

theorem Side.other_ne (x : Side) : x.other ≠ x := by
  cases x <;> decide

theorem Side.eq_or (x y : Side) : y = x ∨ y = x.other := by
  cases x <;> cases y <;> decide

structure Pair where
  kernel : Side → Kernel
  /-- The packets on their way. -/
  wire : List Packet

/-- What can happen: a call, a turn of `egress`, and what the fabric does to a packet. -/
inductive PairOp where
  | call (x : Side) (c : Syscall)
  | egress (x : Side) (fuel : Nat)
  | deliver (i : Nat)
  | lose (i : Nat)

namespace Pair

/-- Two hosts before anything has happened. -/
def start (cfg : Side → KernelConfig) (addrs : Side → List IpAddr) : Pair where
  kernel x := Kernel.host (cfg x) (addrs x)
  wire := []

/-- What `add_host` insists on: an address is claimed once, and loopback is not claimed. -/
def Claims (addrs : Side → List IpAddr) : Prop :=
  ∀ x, ∀ a ∈ addrs x, a.isLoopback = false ∧ a ∉ addrs x.other

def put (p : Pair) (x : Side) (k : Kernel) : Pair :=
  { p with kernel := fun y => if y = x then k else p.kernel y }

/-- `host_for_ip`. -/
def hostForIp (p : Pair) (ip : IpAddr) : Option Side :=
  if (p.kernel .left).addresses.contains ip then some .left
  else if (p.kernel .right).addresses.contains ip then some .right
  else none

/-- `Fabric::deliver`: a packet for an unknown host is dropped. -/
def deliver (p : Pair) (pkt : Packet) : Except Panic Pair :=
  match p.hostForIp pkt.dst with
  | none => .ok p
  | some x => do
    let k ← (p.kernel x).deliver pkt
    pure (p.put x k)

def step (p : Pair) : PairOp → Except Panic (Pair × Reply)
  | .call x c => do
    let (k, r) ← (p.kernel x).syscall c
    pure (p.put x k, r)
  | .egress x fuel => do
    let (k, out) ← (p.kernel x).egress fuel
    pure ({ p.put x k with wire := p.wire ++ out }, .none)
  | .deliver i =>
    match p.wire[i]? with
    | none => .ok (p, .none)
    | some pkt => do
      let p ← { p with wire := p.wire.eraseIdx i }.deliver pkt
      pure (p, .none)
  | .lose i => .ok ({ p with wire := p.wire.eraseIdx i }, .none)

/-- An operation, the state it found, and what it returned. -/
structure Event where
  before : Pair
  op : PairOp
  reply : Reply

/-- The state after some operations, if all of them return, and what happened. -/
def run : Pair → List PairOp → Except Panic (Pair × List Event)
  | p, [] => .ok (p, [])
  | p, op :: ops => do
    let (p', r) ← p.step op
    let (q, evs) ← run p' ops
    pure (q, ⟨p, op, r⟩ :: evs)

@[simp] theorem put_self (p : Pair) (x : Side) (k : Kernel) : (p.put x k).kernel x = k :=
  if_pos rfl

@[simp] theorem put_other (p : Pair) (x : Side) (k : Kernel) :
    (p.put x k).kernel x.other = p.kernel x.other :=
  if_neg x.other_ne

theorem run_snoc {p q : Pair} {ops : List PairOp} {evs : List Event} {op : PairOp}
    (h : p.run (ops ++ [op]) = .ok (q, evs)) :
    ∃ p' evs' r, p.run ops = .ok (p', evs') ∧ p'.step op = .ok (q, r)
      ∧ evs = evs' ++ [⟨p', op, r⟩] := by
  induction ops generalizing p evs with
  | nil =>
    obtain ⟨⟨p', r⟩, h1, h⟩ := bind_eq_ok.mp h
    cases h
    exact ⟨p, [], r, rfl, h1, rfl⟩
  | cons op' ops ih =>
    obtain ⟨⟨p1, r1⟩, h1, h⟩ := bind_eq_ok.mp h
    obtain ⟨⟨q2, evs2⟩, h2, h⟩ := bind_eq_ok.mp h
    cases h
    obtain ⟨p', evs', r, h3, h4, rfl⟩ := ih h2
    refine ⟨p', ⟨p, op', r1⟩ :: evs', r, ?_, h4, rfl⟩
    rw [run, h1]
    show p1.run ops >>= _ = _
    rw [h3]
    rfl

end Pair

/-! ## 2. One connection -/

namespace Syscall

/-- The bytes that `poll_send` accepted. -/
def sent (fd : Fd) : Syscall → Reply → List UInt8
  | .send f buf, .size (.ready (.ok n)) => if f = fd then buf.take n else []
  | _, _ => []

/-- The bytes that `poll_recv` or `try_recv_vectored` returned. -/
def read (fd : Fd) : Syscall → Reply → List UInt8
  | .recv f _, .bytes (.ready (.ok bytes)) => if f = fd then bytes else []
  | .tryRecvVectored f _, .bytes (.ready (.ok bytes)) => if f = fd then bytes else []
  | _, _ => []

/-- Did it shut the write side, or close the descriptor? -/
def shuts (fd : Fd) : Syscall → Reply → Bool
  | .shutdown f, .status (.ready (.ok _)) => f == fd
  | .close f, _ => f == fd
  | _, _ => false

/-- A read into a buffer that is not empty returned nothing. -/
def ends (fd : Fd) : Syscall → Reply → Bool
  | .recv f len, .bytes (.ready (.ok [])) => f == fd && decide (0 < len)
  | .tryRecvVectored f lens, .bytes (.ready (.ok [])) => f == fd && lens.any (0 < ·)
  | _, _ => false

end Syscall

/-- The two ends of a connection: their addresses and descriptors. -/
structure Link where
  addr : Side → SocketAddr
  fd : Side → Fd

namespace Link

/-- A control block between the two addresses, seen from `x`. -/
def joins (l : Link) (x : Side) (st : Socket) : Bool :=
  match st.tcb, st.bound with
  | some t, some key =>
    (⟨key.localAddr, key.localPort⟩ : SocketAddr) == l.addr x && t.peer == l.addr x.other
  | _, _ => false

/-- There is no other incarnation: only the two descriptors are connected between the two
addresses. -/
def sole (l : Link) (p : Pair) : Bool :=
  [Side.left, Side.right].all fun x => (p.kernel x).sockets.sockets.entries.all fun (f, st) =>
    !l.joins x st || f == l.fd x

/-- Was the end of `x` set up, and not removed, when this happened? -/
def up (l : Link) (x : Side) (ev : Pair.Event) : Bool :=
  match (ev.before.kernel x).lookup (l.fd x) with
  | some st => l.joins x st
  | none => false

/-- What a call at `x` did to the connection, if the connection was there. -/
def onCall {α : Type} (l : Link) (x : Side) (ev : Pair.Event) (f : Syscall → Reply → α)
    (otherwise : α) : α :=
  match ev.op with
  | .call y c => if y = x ∧ l.up x ev then f c ev.reply else otherwise
  | _ => otherwise

def sentIn (l : Link) (x : Side) (ev : Pair.Event) : List UInt8 :=
  l.onCall x ev (fun c r => c.sent (l.fd x) r) []

def readIn (l : Link) (x : Side) (ev : Pair.Event) : List UInt8 :=
  l.onCall x ev (fun c r => c.read (l.fd x) r) []

def shutIn (l : Link) (x : Side) (ev : Pair.Event) : Bool :=
  l.onCall x ev (fun c r => c.shuts (l.fd x) r) false

def endsIn (l : Link) (x : Side) (ev : Pair.Event) : Bool :=
  l.onCall x ev (fun c r => c.ends (l.fd x) r) false

def sent (l : Link) (x : Side) (evs : List Pair.Event) : List UInt8 := evs.flatMap (l.sentIn x)

def read (l : Link) (x : Side) (evs : List Pair.Event) : List UInt8 := evs.flatMap (l.readIn x)

def shut (l : Link) (x : Side) (evs : List Pair.Event) : Bool := evs.any (l.shutIn x)

@[simp] theorem sent_snoc (l : Link) (x : Side) (evs : List Pair.Event) (ev : Pair.Event) :
    l.sent x (evs ++ [ev]) = l.sent x evs ++ l.sentIn x ev := by
  simp [sent]

@[simp] theorem read_snoc (l : Link) (x : Side) (evs : List Pair.Event) (ev : Pair.Event) :
    l.read x (evs ++ [ev]) = l.read x evs ++ l.readIn x ev := by
  simp [read]

@[simp] theorem shut_snoc (l : Link) (x : Side) (evs : List Pair.Event) (ev : Pair.Event) :
    l.shut x (evs ++ [ev]) = (l.shut x evs || l.shutIn x ev) := by
  simp [shut]

theorem joins_iff {l : Link} {x : Side} {st : Socket} : l.joins x st = true ↔
    ∃ t key, st.tcb = some t ∧ st.bound = some key
      ∧ (⟨key.localAddr, key.localPort⟩ : SocketAddr) = l.addr x ∧ t.peer = l.addr x.other := by
  unfold joins
  cases st.tcb with
  | none => simp
  | some t =>
    cases st.bound with
    | none => simp
    | some key => simp

/-- `sole`, in terms of connections. -/
theorem sole_iff {l : Link} {p : Pair} : l.sole p = true ↔
    ∀ x f, (p.kernel x).Connected (l.addr x) (l.addr x.other) f → f = l.fd x := by
  constructor
  · rintro h x f ⟨c, hc, hloc, hpeer⟩
    obtain ⟨st, hst, ht, hb, -⟩ := Kernel.conn?_eq_some.mp hc
    obtain ⟨key, hkey, hloc⟩ := Option.map_eq_some_iff.mp hloc
    have hx := List.all_eq_true.mp h x (by cases x <;> simp)
    have hst := List.all_eq_true.mp hx (f, st) (IndexMap.mem_entries.mpr hst)
    have hjoins := joins_iff.mpr ⟨c.tcb, key, ht, hb.trans hkey, hloc, hpeer⟩
    simpa [hjoins] using hst
  · intro h
    refine List.all_eq_true.mpr fun x _ => List.all_eq_true.mpr fun ⟨f, st⟩ hmem => ?_
    show (!l.joins x st || f == l.fd x) = true
    cases hjoins : l.joins x st with
    | false => rfl
    | true =>
      obtain ⟨t, key, ht, hkey, hloc, hpeer⟩ := joins_iff.mp hjoins
      have hc := Kernel.conn?_of_lookup (k := p.kernel x) (IndexMap.mem_entries.mp hmem) ht
      have hf := h x f ⟨_, hc, by rw [Conn.loc?, hkey, ← hloc]; rfl, hpeer⟩
      rw [hf]
      simp

theorem up_iff {l : Link} {x : Side} {ev : Pair.Event} : l.up x ev = true ↔
    (ev.before.kernel x).Connected (l.addr x) (l.addr x.other) (l.fd x) := by
  unfold up
  constructor
  · intro h
    split at h
    · rename_i st hst
      obtain ⟨t, key, ht, hkey, hloc, hpeer⟩ := joins_iff.mp h
      exact ⟨_, Kernel.conn?_of_lookup hst ht, by rw [Conn.loc?, hkey, ← hloc]; rfl, hpeer⟩
    · cases h
  · rintro ⟨c, hc, hloc, hpeer⟩
    obtain ⟨st, hst, ht, hb, -⟩ := Kernel.conn?_eq_some.mp hc
    obtain ⟨key, hkey, hloc⟩ := Option.map_eq_some_iff.mp hloc
    rw [hst]
    exact joins_iff.mpr ⟨c.tcb, key, ht, hb.trans hkey, hloc, hpeer⟩

end Link

end Turmoil.Net
