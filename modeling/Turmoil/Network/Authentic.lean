/-
# Datagrams between hosts

`Moves` says of a step of the net what `Passes` says of a step of a kernel, and a run is composed of
steps.  So whatever the hosts do, and whatever the rules say, the datagrams that are received are among
those that were sent: to the host that receives them, at its port, from the address that is named, with
their bytes, and each at most once.

The layers are those of the code.  A kernel passes datagrams (`Network.Datagrams`), the fabric hands
them from one kernel to another (`Network.Fabric`), the scheduler keeps those that are not due yet, and
the net adds them up.  At each layer the datagrams are counted, and a count that went up would be a
datagram nobody sent.

That the sender is genuine is a second matter, and does not follow from counting: it is read off the
call that sends, because a socket is bound to an address of its host before a datagram leaves it.
-/
import Turmoil.Network.Fabric

namespace Turmoil.Network

open Turmoil.Net
open Turmoil.Net.Kernel

namespace Net

variable {ρ : Type} {onPacket : ρ → Packet → Verdict × ρ} {n n' : Net ρ}

/-! ## 1. The datagrams in the net -/

/-- The datagrams among packets that wait. -/
def waiting (own : IpAddr → Option HostId) (pending : List (Scheduled Packet)) : List Item :=
  itemsOf own (pending.map Scheduled.pkt)

/-- What the hosts hold, and what is on its way. -/
def pool (n : Net ρ) : List Item :=
  n.fabric.pool ++ waiting n.fabric.ipToHost.get? n.scheduler.pending

/-- **What a step of the net does to the datagrams in it**: those that are received, with those that
are still somewhere, were somewhere before or were sent in the step.  A rule may drop a datagram, so it
is an inequality again. -/
structure Moves (n n' : Net ρ) (sent received : List Item) : Prop where
  ipToHost : n'.fabric.ipToHost = n.fabric.ipToHost
  sound : n'.fabric.Sound
  count : ∀ x, received.count x + n'.pool.count x ≤ n.pool.count x + sent.count x

/-- A step that leaves the hosts and the queue of the scheduler alone moves nothing.  Rules that come
and go, and a change of the current host, are of this kind. -/
theorem Moves.of_eq (hn : n.fabric.Sound) (hf : n'.fabric = n.fabric)
    (hs : n'.scheduler.pending = n.scheduler.pending) : Moves n n' [] [] := by
  refine ⟨by rw [hf], hf ▸ hn, fun x => ?_⟩
  rw [pool, pool, hf, hs, List.count_nil]
  omega

/-- Steps compose, as those of a kernel and of the fabric do: this is all a run needs. -/
theorem Moves.trans {n₁ n₂ : Net ρ} {sent₁ sent₂ received₁ received₂ : List Item}
    (h₁ : Moves n n₁ sent₁ received₁) (h₂ : Moves n₁ n₂ sent₂ received₂) :
    Moves n n₂ (sent₁ ++ sent₂) (received₁ ++ received₂) := by
  refine ⟨h₂.ipToHost.trans h₁.ipToHost, h₂.sound, fun x => ?_⟩
  have hx₁ := h₁.count x
  have hx₂ := h₂.count x
  simp only [List.count_append]
  omega

/-- The hosts take a step, and what is on its way stays. -/
theorem Moves.fabric {f : Fabric} {sent received : List Item}
    (h : Fabric.Moves n.fabric f sent received) : Moves n { n with fabric := f } sent received := by
  refine ⟨h.ipToHost, h.sound, fun x => ?_⟩
  have hx := h.count x
  simp only [pool, List.count_append]
  show _ + (_ + (waiting f.ipToHost.get? _).count x) ≤ _
  rw [h.ipToHost]
  omega

/-! ## 2. A turn of the scheduler -/

theorem waiting_split (own : IpAddr → Option HostId) (pending : List (Scheduled Packet)) (i : Nat)
    (x : Item) : (waiting own pending).count x
      = (waiting own (pending.take i)).count x + (waiting own (pending.drop i)).count x := by
  rw [← List.count_append, waiting, waiting, waiting, ← itemsOf_append, ← List.map_append,
    List.take_append_drop]

/-- A packet that is put in the queue is in it once. -/
theorem waiting_insertIdx (own : IpAddr → Option HostId) (pending : List (Scheduled Packet))
    (entry : Scheduled Packet) (i : Nat) (x : Item) : (waiting own (pending.insertIdx i entry)).count x
      ≤ (itemOf own entry.pkt).toList.count x + (waiting own pending).count x := by
  rcases Nat.lt_or_ge pending.length i with hi | hi
  · rw [List.insertIdx_of_length_lt hi]
    exact Nat.le_add_left _ _
  · have hperm := ((List.perm_insertIdx entry pending hi).map Scheduled.pkt).filterMap (itemOf own)
    rw [waiting, itemsOf, hperm.count_eq, ← itemsOf, List.map_cons, itemsOf_cons, List.count_append]
    exact Nat.le_refl _

theorem deliverAll_moves : ∀ {pkts : List Packet} {f f' : Fabric}, f.Sound →
    deliverAll pkts f = .ok f' → Fabric.Moves f f' (itemsOf f.ipToHost.get? pkts) [] := by
  intro pkts
  induction pkts with
  | nil =>
    intro f f' hf h
    cases h
    exact .refl hf
  | cons pkt pkts ih =>
    intro f f' hf h
    obtain ⟨f₁, h₁, h⟩ := bind_eq_ok.mp h
    have hm := Fabric.deliver_moves hf h₁
    have hrest := ih hm.sound h
    rw [hm.ipToHost] at hrest
    rw [itemsOf_cons]
    exact hm.trans hrest

/-- **A packet a host has sent** is dropped, handed over, or on its way. -/
theorem dispose_moves (hn : n.fabric.Sound) {pkt : Packet} {v : Verdict} {fate : Fate Packet}
    (h : n.dispose onPacket pkt = .ok (n', v, fate)) : Moves n n' (n.fabric.wireItem pkt).toList [] := by
  obtain ⟨⟨s, fate₁⟩, hs, h⟩ := bind_eq_ok.mp h
  have hdropped : Moves n { n with rules := (evaluate (onRule onPacket) n.rules pkt).2 }
      (n.fabric.wireItem pkt).toList [] := by
    refine ⟨rfl, hn, fun x => ?_⟩
    show _ + n.pool.count x ≤ _
    rw [List.count_nil]
    omega
  have hdelivered : ∀ {f}, n.fabric.deliver pkt = .ok f →
      Moves n { n with fabric := f, rules := (evaluate (onRule onPacket) n.rules pkt).2 }
        (n.fabric.wireItem pkt).toList [] := by
    intro f hf
    have hm := Moves.fabric (n := n) (Fabric.deliver_moves hn hf)
    exact ⟨hm.ipToHost, hm.sound, hm.count⟩
  unfold Scheduler.dispose at hs
  split at hs
  · cases hs
    cases h
    exact hdropped
  · cases hs
    obtain ⟨f, hf, h⟩ := bind_eq_ok.mp h
    cases h
    exact hdelivered hf
  · split at hs
    · cases hs
      obtain ⟨f, hf, h⟩ := bind_eq_ok.mp h
      cases h
      exact hdelivered hf
    · obtain ⟨⟨s₁, entry⟩, hs₁, hs⟩ := bind_eq_ok.mp hs
      cases hs
      cases h
      obtain ⟨deliverAt, -, hs₁⟩ := bind_eq_ok.mp hs₁
      split at hs₁
      · cases hs₁
        refine ⟨rfl, hn, fun x => ?_⟩
        have hx := waiting_insertIdx n.fabric.ipToHost.get? n.scheduler.pending
          ⟨deliverAt, n.scheduler.nextSeq, pkt⟩
        simp only [pool, List.count_nil, List.count_append]
        show 0 + (_ + List.count x (waiting _ (List.insertIdx _ _ _))) ≤ _
        refine Nat.le_trans (Nat.le_of_eq (Nat.zero_add _)) (Nat.le_trans
          (Nat.add_le_add_left (hx _ x) _) (Nat.le_of_eq ?_))
        show _ + ((n.fabric.wireItem pkt).toList.count x + _) = _
        omega
      · cases hs₁

/-- All that the hosts have sent in this turn. -/
theorem disposeAll_moves : ∀ {pkts : List Packet} {n n' : Net ρ}
    {sent : List (Packet × Verdict × Fate Packet)}, n.fabric.Sound →
    n.disposeAll onPacket pkts = .ok (n', sent) →
    Moves n n' (itemsOf n.fabric.ipToHost.get? pkts) [] := by
  intro pkts
  induction pkts with
  | nil =>
    intro n n' sent hn h
    cases h
    exact .of_eq hn rfl rfl
  | cons pkt pkts ih =>
    intro n n' sent hn h
    obtain ⟨⟨n₁, v, fate⟩, h₁, h⟩ := bind_eq_ok.mp h
    obtain ⟨⟨n₂, sent₂⟩, h₂, h⟩ := bind_eq_ok.mp h
    cases h
    have hm := dispose_moves hn h₁
    have hrest := ih hm.sound h₂
    rw [hm.ipToHost] at hrest
    rw [itemsOf_cons]
    exact hm.trans hrest

/-- **A turn of the scheduler** moves datagrams, and makes none. -/
theorem tick_moves (hn : n.fabric.Sound) {dt fuel : Nat} {r : TickRecord Packet}
    (h : n.tick onPacket dt fuel = .ok (n', r)) : Moves n n' [] [] := by
  obtain ⟨now, -, h⟩ := bind_eq_ok.mp h
  obtain ⟨f₁, h₁, h⟩ := bind_eq_ok.mp h
  obtain ⟨⟨f₂, batch⟩, h₂, h⟩ := bind_eq_ok.mp h
  obtain ⟨⟨n₃, sent⟩, h₃, h⟩ := bind_eq_ok.mp h
  cases h
  have hm₁ := deliverAll_moves hn h₁
  obtain ⟨hip₂, -, hsound₂, hcount₂⟩ := Fabric.egressHosts_moves hm₁.sound h₂
  have hm₃ := disposeAll_moves (by exact hsound₂) h₃
  refine ⟨hm₃.ipToHost.trans (hip₂.trans hm₁.ipToHost), hm₃.sound, fun x => ?_⟩
  have hx₁ := hm₁.count x
  have hx₂ := hcount₂ x
  have hx₃ := hm₃.count x
  -- what is due is the first part of the queue
  have hqueue := waiting_split n.fabric.ipToHost.get? n.scheduler.pending
    ((n.scheduler.pending.findIdx? fun e => now < e.deliverAt).getD n.scheduler.pending.length) x
  rw [hm₁.ipToHost] at hx₂
  simp only [pool, List.count_append, List.count_nil, hip₂, hm₁.ipToHost] at hx₁ hx₃ ⊢
  rw [← waiting] at hx₁
  omega

/-! ## 3. Every run -/

/-- What the calls of a run sent. -/
def sentIn (own : HostId → IpAddr → Option HostId) : List Event → List Item
  | [] => []
  | .called c :: events => c.sent own ++ sentIn own events
  | .ticked _ :: events => sentIn own events

/-- What the calls of a run received. -/
def receivedIn : List Event → List Item
  | [] => []
  | .called c :: events => c.received ++ receivedIn events
  | .ticked _ :: events => receivedIn events

theorem sentIn_append (own : HostId → IpAddr → Option HostId) (events' : List Event) :
    ∀ events, sentIn own (events ++ events') = sentIn own events ++ sentIn own events'
  | [] => rfl
  | .called c :: events => by
    rw [List.cons_append, sentIn, sentIn, sentIn_append own events' events, List.append_assoc]
  | .ticked _ :: events => sentIn_append own events' events

theorem receivedIn_append (events' : List Event) :
    ∀ events, receivedIn (events ++ events') = receivedIn events ++ receivedIn events'
  | [] => rfl
  | .called c :: events => by
    rw [List.cons_append, receivedIn, receivedIn, receivedIn_append events' events, List.append_assoc]
  | .ticked _ :: events => receivedIn_append events' events

/-- What a call does at its host. -/
structure Genuine (own : HostId → IpAddr → Option HostId) (c : Called) : Prop where
  /-- The sender of a datagram is an address of the host, if it has one of the family. -/
  sender : ∀ x ∈ c.sent own, x.datagram.sender.ip.isUnspecified = true
    ∨ own c.host x.datagram.sender.ip = some c.host
  /-- A datagram that is returned was at the head of the queue, for the port of the socket. -/
  reply : ∀ fd len sender bytes, c.call = .recvFrom fd len →
    c.reply = .datagram (.ready (.ok (sender, bytes))) → ∃ d : Datagram, d.sender = sender
      ∧ bytes = d.payload.take len
      ∧ (∃ st key, c.before.lookup fd = some st ∧ st.bound = some key ∧ key.localPort = d.port)
      ∧ c.received = [⟨some c.host, d⟩]

/-- The source of a datagram is an address of the host. -/
theorem udpSource_local {k : Kernel} (hb : Bound k) {fd : Fd} {st : Socket} {key : BindKey}
    (hst : k.lookup fd = some st) (hkey : st.bound = some key) (dst : SocketAddr) :
    (k.udpSource key dst).isUnspecified = true ∨ k.isLocal (k.udpSource key dst) = true := by
  unfold udpSource
  split
  · rename_i hun
    split
    · exact .inr (isLocal_localhostLike k dst.ip)
    · cases hlike : k.addressLike dst.ip with
      | none => exact .inl hun
      | some a => exact .inr (isLocal_of_addressLike hlike)
  · exact hb.owned hst hkey

/-- The socket of a send is bound when the send returns, so its address is the host's. -/
theorem sentItem_sender {k : Kernel} (hb : Bound k) {own : IpAddr → Option HostId} {fd : Fd}
    {buf : List UInt8} {dst : SocketAddr} {x : Item} (hx : sentItem own k fd buf dst = some x) :
    x.datagram.sender.ip.isUnspecified = true ∨ k.isLocal x.datagram.sender.ip = true := by
  obtain ⟨key, hkey, rfl⟩ := Option.map_eq_some_iff.mp hx
  obtain ⟨st, hst, hbound⟩ := Option.bind_eq_some_iff.mp hkey
  exact udpSource_local hb hst hbound dst

theorem sent_sender {own : HostId → IpAddr → Option HostId} {c : Called} (hb : Bound c.after) {x : Item}
    (hx : x ∈ c.sent own) :
    x.datagram.sender.ip.isUnspecified = true ∨ c.after.isLocal x.datagram.sender.ip = true := by
  unfold Called.sent at hx
  split at hx
  · exact sentItem_sender hb (Option.mem_toList.mp hx)
  · obtain ⟨peer, -, hx⟩ := Option.bind_eq_some_iff.mp (Option.mem_toList.mp hx)
    exact sentItem_sender hb hx
  · cases hx

/-- **A step of the net.**  A call changes the kernel of the current host, a turn is `tick_moves`, and
the other steps touch no datagram.  With what moves comes what the caller saw: the two are proved
together because both read the kernel before the call. -/
theorem step_moves (hn : n.fabric.Sound) {op : Op ρ} {events : List Event}
    (h : n.step onPacket op = .ok (n', events)) :
    Moves n n' (sentIn n.fabric.owner events) (receivedIn events)
      ∧ ∀ c, .called c ∈ events → Genuine n.fabric.owner c := by
  cases op with
  | setCurrent id =>
    cases h
    exact ⟨.of_eq hn rfl rfl, fun c hc => absurd hc List.not_mem_nil⟩
  | call c =>
    obtain ⟨id, -, h⟩ := bind_eq_ok.mp h
    obtain ⟨k, hk, h⟩ := bind_eq_ok.mp h
    obtain ⟨⟨k', r⟩, hc, h⟩ := bind_eq_ok.mp h
    cases h
    obtain ⟨host, hhost, rfl⟩ := Fabric.kernel_eq_ok hk
    have hb := hn.bound hhost
    have hp := syscall_passes id n.fabric.owner hb hc
    refine ⟨?_, fun c' hc' => ?_⟩
    · simp only [sentIn, receivedIn, List.append_nil]
      exact .fabric (Fabric.put_moves hn hhost hp)
    · cases List.mem_singleton.mp hc'
      refine ⟨fun x hx => (sent_sender hp.bound hx).imp_right fun hl => ?_, ?_⟩
      · rw [isLocal_of_addresses hp.addresses] at hl
        exact (hn.owns hhost _).mp hl
      · intro fd len sender bytes hcall hreply
        dsimp only at hcall hreply
        subst hcall hreply
        obtain ⟨⟨k₁, r₁⟩, h₁, hc⟩ := bind_eq_ok.mp hc
        cases hc
        exact (pollRecvFrom_passes (n.fabric.owner id) id hb h₁).2 sender bytes rfl
  | rule r =>
    obtain ⟨n₁, h₁, h⟩ := bind_eq_ok.mp h
    cases h
    unfold installRule at h₁
    split at h₁
    · cases h₁
      exact ⟨.of_eq hn rfl rfl, fun c hc => absurd hc List.not_mem_nil⟩
    · cases h₁
  | uninstall id =>
    cases h
    exact ⟨.of_eq hn rfl rfl, fun c hc => absurd hc List.not_mem_nil⟩
  | tick dt fuel =>
    obtain ⟨⟨n₁, r⟩, h₁, h⟩ := bind_eq_ok.mp h
    cases h
    exact ⟨tick_moves hn h₁, fun c hc => by cases List.mem_singleton.mp hc⟩

/-- **A run of the net**, by `Moves.trans`.  The owners of the addresses do not change after the start,
so the datagrams of all steps are told apart in the same way. -/
theorem run_moves : ∀ {ops : List (Op ρ)} {n n' : Net ρ} {events : List Event}, n.fabric.Sound →
    n.run onPacket ops = .ok (n', events) →
    Moves n n' (sentIn n.fabric.owner events) (receivedIn events)
      ∧ ∀ c, .called c ∈ events → Genuine n.fabric.owner c := by
  intro ops
  induction ops with
  | nil =>
    intro n n' events hn h
    cases h
    exact ⟨.of_eq hn rfl rfl, fun c hc => absurd hc List.not_mem_nil⟩
  | cons op ops ih =>
    intro n n' events hn h
    obtain ⟨⟨n₁, first⟩, h₁, h⟩ := bind_eq_ok.mp h
    obtain ⟨⟨n₂, rest⟩, h₂, h⟩ := bind_eq_ok.mp h
    cases h
    obtain ⟨hm, hgenuine⟩ := step_moves hn h₁
    obtain ⟨hrest, hgenuine'⟩ := ih hm.sound h₂
    rw [Fabric.owner_of_ipToHost hm.ipToHost] at hrest hgenuine'
    rw [sentIn_append, receivedIn_append]
    refine ⟨hm.trans hrest, fun c hc => ?_⟩
    exact (List.mem_append.mp hc).elim (hgenuine c) (hgenuine' c)

/-! ## 4. The hosts come first -/

/-- Nothing has happened yet. -/
structure Fresh (n : Net ρ) : Prop where
  sound : n.fabric.Sound
  hosts : ∀ {id host}, n.fabric.hosts.get? id = some host →
    ∃ cfg addrs, host.kernel = Kernel.host cfg addrs
  scheduler : n.scheduler = Scheduler.new

theorem addHost_fresh (hn : n.Fresh) {addrs : List IpAddr} (h : n.addHost addrs = .ok n') :
    n'.Fresh := by
  obtain ⟨⟨f, id⟩, h₁, h⟩ := bind_eq_ok.mp h
  cases h
  refine ⟨Fabric.addHost_sound hn.sound h₁, fun {g host} hg => ?_, hn.scheduler⟩
  obtain ⟨-, rfl⟩ := Fabric.addHost_eq_ok h₁
  dsimp only at hg
  rw [IndexMap.get?_insert] at hg
  split at hg
  · cases hg
    exact ⟨_, _, rfl⟩
  · exact hn.hosts hg

theorem addHosts_fresh {cfg : KernelConfig} {hosts : List (List IpAddr)}
    (h : (withConfig cfg : Net ρ).addHosts hosts = .ok n) : n.Fresh := by
  suffices hall : ∀ {n₀ : Net ρ}, n₀.Fresh → n₀.addHosts hosts = .ok n → n.Fresh from
    hall ⟨Fabric.new_sound cfg, (fun h => by cases h), rfl⟩ h
  clear h
  induction hosts with
  | nil =>
    intro n₀ hn₀ h
    cases h
    exact hn₀
  | cons addrs hosts ih =>
    intro n₀ hn₀ h
    obtain ⟨n₁, h₁, h⟩ := bind_eq_ok.mp h
    exact ih (addHost_fresh hn₀ h₁) h

/-- At the start there are no datagrams anywhere.  So whatever is received later was sent. -/
theorem Fresh.pool (hn : n.Fresh) : n.pool = [] := by
  have hhosts : n.fabric.pool = [] := List.flatMap_eq_nil_iff.mpr fun e he => by
    obtain ⟨cfg, addrs, hk⟩ := hn.hosts (IndexMap.mem_entries.mp he)
    obtain ⟨as, has⟩ := host_eq cfg addrs
    rw [hk, has]
    rfl
  rw [Net.pool, hhosts, hn.scheduler]
  rfl

/-- **Datagrams are authentic.**  In every run of a net with any number of hosts, whatever they call,
whatever the rules say and however the packets interleave:

* the datagrams that are received are among those that were sent, each to the host that received it, to
  its port, by the sender that is named, with its bytes, and each at most once; what is sent to loopback
  is received by the host that sent it;
* the sender of a datagram is an address of the host that sent it, or unspecified;
* `recvFrom` returns the sender of the datagram and its bytes, as many as the buffer takes. -/
theorem datagrams_authentic (cfg : KernelConfig) (hosts : List (List IpAddr)) (ops : List (Op ρ))
    {events : List Event} (hn : (withConfig cfg).addHosts hosts = .ok n)
    (hr : n.run onPacket ops = .ok (n', events)) :
    (receivedIn events).Subperm (sentIn n.fabric.owner events)
      ∧ ∀ c, .called c ∈ events → Genuine n.fabric.owner c := by
  have hfresh := addHosts_fresh hn
  obtain ⟨hm, hgenuine⟩ := run_moves hfresh.sound hr
  refine ⟨List.subperm_ext_iff.mpr fun x _ => ?_, hgenuine⟩
  have hx := hm.count x
  rw [hfresh.pool, List.count_nil] at hx
  omega

/-- A rule that delays the datagrams of one byte. -/
def delayShort : Unit → Packet → Verdict × Unit
  | _, pkt =>
    match pkt.payload with
    | .udp d => (if d.payload.length = 1 then .deliver 2 else .pass, ())
    | .tcp _ => (.pass, ())

/-- A datagram overtakes another on its way to the second host, and one stays on the first host. -/
def overtakenOps : List (Op Unit) :=
  [.rule (), .setCurrent 1, .call (.bind ⟨.v4 0, 53⟩ .dgram), .setCurrent 0,
    .call (.bind ⟨.v4 0, 53⟩ .dgram), .call (.sendTo 1 [1] ⟨.v4 0x0A000002, 53⟩),
    .call (.sendTo 1 [2, 3] ⟨.v4 0x0A000002, 53⟩), .call (.sendTo 1 [4] ⟨.v4 0x7F000001, 53⟩), .tick 1 4,
    .call (.recvFrom 1 8), .setCurrent 1, .call (.recvFrom 1 1), .call (.recvFrom 1 8), .tick 2 4,
    .call (.recvFrom 1 8)]

def overtakenHosts : List (List IpAddr) := [[.v4 0x0A000001], [.v4 0x0A000002]]

theorem datagrams_authentic_overtaken : ∃ n n' events,
    (withConfig .default : Net Unit).addHosts overtakenHosts = .ok n
      ∧ n.run delayShort overtakenOps = .ok (n', events)
      ∧ receivedIn events = [⟨some 0, ⟨53, ⟨.v4 0x7F000001, 53⟩, [4]⟩⟩,
        ⟨some 1, ⟨53, ⟨.v4 0x0A000001, 53⟩, [2, 3]⟩⟩, ⟨some 1, ⟨53, ⟨.v4 0x0A000001, 53⟩, [1]⟩⟩]
      ∧ (receivedIn events).Subperm (sentIn n.fabric.owner events) := by
  have hfacts : ((withConfig .default : Net Unit).addHosts overtakenHosts).toOption.bind
      (fun n => (n.run delayShort overtakenOps).toOption.map fun r => receivedIn r.2)
      = some [⟨some 0, ⟨53, ⟨.v4 0x7F000001, 53⟩, [4]⟩⟩,
        ⟨some 1, ⟨53, ⟨.v4 0x0A000001, 53⟩, [2, 3]⟩⟩, ⟨some 1, ⟨53, ⟨.v4 0x0A000001, 53⟩, [1]⟩⟩] := by
    decide +kernel
  obtain ⟨n, hn, hfacts⟩ := Option.bind_eq_some_iff.mp hfacts
  obtain ⟨⟨n', events⟩, hr, hreceived⟩ := Option.map_eq_some_iff.mp hfacts
  have hn := toOption_eq_some.mp hn
  have hr := toOption_eq_some.mp hr
  exact ⟨n, n', events, hn, hr, hreceived,
    (datagrams_authentic .default overtakenHosts overtakenOps hn hr).1⟩

end Net

end Turmoil.Network
