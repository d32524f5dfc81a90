/-
# Two hosts on the net

A net of two hosts is a `Pair` (`Net.Pair`): what the scheduler holds is on the wire, what a rule drops
is lost, and what is handed over is delivered.  A turn of the scheduler is many steps of the pair, and
a call is one.  So what holds of every run of the pair holds of every run of the net, whatever its
rules.

The pair is the abstract one of the two: its wire is a bag, and any packet of it may be delivered or
lost at any time.  The net has a queue, a clock and rules that decide.  The simulation forgets all
three, and this is what makes it simple: `Related` asks that the kernels are the same and that the
queue is the wire up to order, and says nothing of time.

What is kept is what the applications see: the calls with their replies, in their order, and the
kernels they found (`Seen`).
-/
import Turmoil.Network.Authentic

namespace Turmoil.Network

open Turmoil.Net
open Turmoil.Net.Kernel

/-! ## 1. Runs of the pair -/

/-- The identifiers of the two hosts, in the order they are added. -/
def sideId : Side → HostId
  | .left => 0
  | .right => 1

theorem sideId_inj {x y : Side} (h : sideId x = sideId y) : x = y := by
  cases x <;> cases y <;> first | rfl | cases h

/-- A call, as both see it: on which host, the kernel it found, and what it returned. -/
structure Seen where
  host : HostId
  before : Kernel
  call : Syscall
  reply : Reply

def seenOf (ev : Pair.Event) : Option Seen :=
  match ev.op with
  | .call x c => some ⟨sideId x, ev.before.kernel x, c, ev.reply⟩
  | _ => none

def Net.seenOf : Net.Event → Option Seen
  | .called c => some ⟨c.host, c.before, c.call, c.reply⟩
  | .ticked _ => none

/-- Some steps of the pair, and the calls among them.  One step of the net is many of the pair, or
none. -/
def Steps (p p' : Pair) (seen : List Seen) : Prop :=
  ∃ ops evs, p.run ops = .ok (p', evs) ∧ evs.filterMap seenOf = seen

variable {p p' p'' : Pair}

theorem Steps.refl (p : Pair) : Steps p p [] := ⟨[], [], rfl, rfl⟩

/-- Steps compose, and so do the calls in them. -/
theorem Steps.trans {seen seen' : List Seen} (h : Steps p p' seen) (h' : Steps p' p'' seen') :
    Steps p p'' (seen ++ seen') := by
  obtain ⟨ops, evs, hrun, hseen⟩ := h
  obtain ⟨ops', evs', hrun', hseen'⟩ := h'
  refine ⟨ops ++ ops', evs ++ evs', ?_, by rw [List.filterMap_append, hseen, hseen']⟩
  clear hseen
  induction ops generalizing p evs with
  | nil =>
    cases hrun
    exact hrun'
  | cons op ops ih =>
    obtain ⟨⟨p₁, r₁⟩, h₁, hrun⟩ := bind_eq_ok.mp hrun
    obtain ⟨⟨p₂, evs₂⟩, h₂, hrun⟩ := bind_eq_ok.mp hrun
    cases hrun
    exact bind_eq_ok.mpr ⟨(p₁, r₁), h₁, bind_eq_ok.mpr ⟨_, ih evs₂ h₂, rfl⟩⟩

/-- A single step is a call that is seen, or a step of the wire that is not. -/
theorem Steps.one (op : PairOp) {r : Reply} (h : p.step op = .ok (p', r)) :
    Steps p p' (seenOf ⟨p, op, r⟩).toList := by
  refine ⟨[op], [⟨p, op, r⟩], bind_eq_ok.mpr ⟨(p', r), h, rfl⟩, ?_⟩
  cases hs : seenOf ⟨p, op, r⟩ with
  | none => exact List.filterMap_cons_none hs
  | some s => exact List.filterMap_cons_some hs

/-! ## 2. The relation -/

variable {addrs : Side → List IpAddr} {f f' : Fabric}

/-- The hosts of the fabric are the two kernels. -/
structure Alike (addrs : Side → List IpAddr) (f : Fabric) (p : Pair) : Prop where
  sound : f.Sound
  keys : f.hosts.keys = [0, 1]
  kernel : ∀ x, ∃ host, f.hosts.get? (sideId x) = some host ∧ host.kernel = p.kernel x
  addresses : ∀ x ip, ip ∈ (p.kernel x).addresses ↔ ip ∈ addrs x
  owners : ∀ x ip, f.ipToHost.get? ip = some (sideId x) ↔ ip ∈ addrs x

/-- Nothing is said of the wire. -/
theorem Alike.withWire (h : Alike addrs f p) (wire : List Packet) :
    Alike addrs f { p with wire := wire } :=
  ⟨h.sound, h.keys, h.kernel, h.addresses, h.owners⟩

/-- The kernel of one side changes. -/
theorem Alike.put (h : Alike addrs f p) {x : Side} {k : Kernel}
    (haddr : k.addresses = (p.kernel x).addresses) (hb : Bound k) :
    Alike addrs (f.put (sideId x) k) (p.put x k) := by
  obtain ⟨host, hhost, hkernel⟩ := h.kernel x
  refine ⟨Fabric.put_sound h.sound hhost (hkernel ▸ haddr) hb, ?_, fun y => ?_, fun y ip => ?_, h.owners⟩
  · exact (IndexMap.keys_update ..).trans h.keys
  · obtain ⟨host', hhost', hkernel'⟩ := h.kernel y
    rw [Fabric.get?_put hhost]
    by_cases hy : y = x
    · subst hy
      rw [if_pos rfl, Pair.put_self]
      exact ⟨_, rfl, rfl⟩
    · rw [if_neg fun e => hy (sideId_inj e)]
      refine ⟨host', hhost', hkernel'.trans ?_⟩
      exact (if_neg hy).symm
  · by_cases hy : y = x
    · subst hy
      rw [Pair.put_self, haddr]
      exact h.addresses y ip
    · show ip ∈ (if y = x then k else p.kernel y).addresses ↔ _
      rw [if_neg hy]
      exact h.addresses y ip

theorem Alike.kernel_eq (h : Alike addrs f p) (x : Side) : f.kernel (sideId x) = .ok (p.kernel x) := by
  obtain ⟨host, hhost, hkernel⟩ := h.kernel x
  rw [Fabric.kernel, hhost, ← hkernel]
  rfl

/-- Both hand a packet to the same host. -/
theorem Alike.hostForIp (h : Alike addrs f p) (ip : IpAddr) :
    f.ipToHost.get? ip = (p.hostForIp ip).map sideId := by
  have hside : ∀ x, (p.kernel x).addresses.contains ip = true ↔ f.ipToHost.get? ip = some (sideId x) :=
    fun x => by rw [List.contains_iff_mem, h.addresses, h.owners]
  unfold Pair.hostForIp
  split
  · rename_i hl
    exact (hside .left).mp hl
  · rename_i hl
    split
    · rename_i hr
      exact (hside .right).mp hr
    · rename_i hr
      cases hg : f.ipToHost.get? ip with
      | none => rfl
      | some id =>
        obtain ⟨host, hhost⟩ := (h.sound.outside hg).2
        have hmem : id ∈ f.hosts.keys := IndexMap.mem_keys.mpr ⟨host, hhost⟩
        rw [h.keys] at hmem
        rcases List.mem_cons.mp hmem with rfl | hmem
        · exact absurd ((hside .left).mpr hg) hl
        · rw [List.mem_singleton.mp hmem] at hg
          exact absurd ((hside .right).mpr hg) hr

/-- **A packet that is handed over** reaches the same host in both, and changes its kernel in the same
way. -/
theorem Alike.deliver (h : Alike addrs f p) {pkt : Packet} (hd : f.deliver pkt = .ok f') :
    ∃ p', p.deliver pkt = .ok p' ∧ Alike addrs f' p' ∧ p'.wire = p.wire := by
  have hip := h.hostForIp pkt.dst
  unfold Fabric.deliver at hd
  unfold Pair.deliver
  cases hside : p.hostForIp pkt.dst with
  | none =>
    rw [hside] at hip
    rw [hip] at hd
    cases hd
    exact ⟨p, rfl, h, rfl⟩
  | some x =>
    rw [hside] at hip
    rw [hip] at hd
    obtain ⟨k, hk, hd⟩ := bind_eq_ok.mp hd
    obtain ⟨k', hk', hd⟩ := bind_eq_ok.mp hd
    cases hd
    cases (h.kernel_eq x).symm.trans hk
    obtain ⟨host, hhost, hkernel⟩ := h.kernel x
    have howner := Fabric.owner_of_get? h.sound hip (sideId x)
    have hp := deliver_passes (f.owner (sideId x)) (sideId x)
      (hkernel ▸ h.sound.bound hhost) howner
      (hkernel ▸ (h.sound.owns hhost pkt.dst).mpr howner) hk'
    exact ⟨p.put x k', bind_eq_ok.mpr ⟨k', hk', rfl⟩, h.put hp.addresses hp.bound, rfl⟩

/-! ## 3. A turn of the scheduler -/

/-- A packet of the wire is handed over. -/
theorem deliver_step (h : Alike addrs f p) {pkt : Packet} {rest : List Packet}
    (hw : (pkt :: rest).Perm p.wire) (hd : f.deliver pkt = .ok f') :
    ∃ p', Steps p p' [] ∧ Alike addrs f' p' ∧ rest.Perm p'.wire := by
  obtain ⟨i, hi, hget⟩ := List.getElem_of_mem (hw.subset List.mem_cons_self)
  obtain ⟨p', hp', halike, hwire⟩ := (h.withWire (p.wire.eraseIdx i)).deliver hd
  refine ⟨p', .one (.deliver i) (r := .none) ?_, halike, ?_⟩
  · rw [Pair.step, List.getElem?_eq_getElem hi, hget]
    exact bind_eq_ok.mpr ⟨p', hp', rfl⟩
  · rw [hwire]
    refine List.Perm.cons_inv (hw.trans ?_)
    rw [← hget]
    exact (List.getElem_cons_eraseIdx_perm hi).symm

/-- A packet of the wire is lost. -/
theorem lose_step (h : Alike addrs f p) {pkt : Packet} {rest : List Packet}
    (hw : (pkt :: rest).Perm p.wire) :
    ∃ p', Steps p p' [] ∧ Alike addrs f p' ∧ rest.Perm p'.wire := by
  obtain ⟨i, hi, hget⟩ := List.getElem_of_mem (hw.subset List.mem_cons_self)
  refine ⟨{ p with wire := p.wire.eraseIdx i }, .one (.lose i) (r := .none) rfl, h.withWire _, ?_⟩
  refine List.Perm.cons_inv (hw.trans ?_)
  rw [← hget]
  exact (List.getElem_cons_eraseIdx_perm hi).symm

/-- The packets that are due are on the wire, and leave it one by one; `rest` stays. -/
theorem deliverAll_steps : ∀ {pkts rest : List Packet} {f f' : Fabric} {p : Pair}, Alike addrs f p →
    (pkts ++ rest).Perm p.wire → Net.deliverAll pkts f = .ok f' →
    ∃ p', Steps p p' [] ∧ Alike addrs f' p' ∧ rest.Perm p'.wire := by
  intro pkts
  induction pkts with
  | nil =>
    intro rest f f' p h hw hd
    cases hd
    exact ⟨p, .refl p, h, hw⟩
  | cons pkt pkts ih =>
    intro rest f f' p h hw hd
    obtain ⟨f₁, h₁, hd⟩ := bind_eq_ok.mp hd
    obtain ⟨p₁, hsteps₁, halike₁, hw₁⟩ := deliver_step h hw h₁
    obtain ⟨p₂, hsteps₂, halike₂, hw₂⟩ := ih halike₁ hw₁ hd
    exact ⟨p₂, hsteps₁.trans hsteps₂, halike₂, hw₂⟩

/-- A turn of some of the hosts. -/
theorem egressHosts_steps {fuel : Nat} : ∀ {sides : List Side} {f f' : Fabric} {p : Pair}
    {out : List Packet}, Alike addrs f p →
    Fabric.egressHosts fuel (sides.map sideId) f = .ok (f', out) →
    ∃ p', Steps p p' [] ∧ Alike addrs f' p' ∧ p'.wire = p.wire ++ out := by
  intro sides
  induction sides with
  | nil =>
    intro f f' p out h he
    cases he
    exact ⟨p, .refl p, h, (List.append_nil _).symm⟩
  | cons x sides ih =>
    intro f f' p out h he
    obtain ⟨k, hk, he⟩ := bind_eq_ok.mp he
    obtain ⟨⟨k', out₁⟩, hk', he⟩ := bind_eq_ok.mp he
    obtain ⟨⟨f₂, out₂⟩, h₂, he⟩ := bind_eq_ok.mp he
    cases he
    cases (h.kernel_eq x).symm.trans hk
    obtain ⟨host, hhost, hkernel⟩ := h.kernel x
    have hl := egress_leaves (f.owner (sideId x)) (sideId x)
      (hkernel ▸ h.sound.bound hhost)
      (fun ip hip => (h.sound.owns hhost ip).mp (by rw [hkernel]; exact hip)) hk'
    obtain ⟨p₂, hsteps₂, halike₂, hw₂⟩ :=
      ih ((h.put hl.addresses hl.bound).withWire (p.wire ++ out₁)) h₂
    refine ⟨p₂, Steps.trans (.one (.egress x fuel) (r := .none) ?_) hsteps₂, halike₂, ?_⟩
    · exact bind_eq_ok.mpr ⟨(k', out₁), hk', rfl⟩
    · rw [hw₂, List.append_assoc]

variable {ρ : Type} {onPacket : ρ → Packet → Verdict × ρ} {n n' : Net ρ}

/-- The net and the pair. -/
structure Related (addrs : Side → List IpAddr) (n : Net ρ) (p : Pair) : Prop where
  alike : Alike addrs n.fabric p
  wire : (n.scheduler.pending.map Scheduled.pkt).Perm p.wire

/-- Whatever the index, insertion puts the element somewhere or does nothing. -/
theorem insertIdx_perm_or {α : Type} (l : List α) (a : α) (i : Nat) :
    (l.insertIdx i a).Perm (a :: l) ∨ l.insertIdx i a = l := by
  rcases Nat.lt_or_ge l.length i with hi | hi
  · exact .inr (List.insertIdx_of_length_lt hi)
  · exact .inl (List.perm_insertIdx a l hi)

/-- **A packet the hosts have sent** is lost, handed over, or stays on the wire. -/
theorem dispose_steps {pkt : Packet} {rest : List Packet} {v : Verdict} {fate : Fate Packet}
    (h : Alike addrs n.fabric p)
    (hw : (pkt :: (n.scheduler.pending.map Scheduled.pkt ++ rest)).Perm p.wire)
    (hd : n.dispose onPacket pkt = .ok (n', v, fate)) :
    ∃ p', Steps p p' [] ∧ Alike addrs n'.fabric p'
      ∧ (n'.scheduler.pending.map Scheduled.pkt ++ rest).Perm p'.wire := by
  obtain ⟨⟨s, fate₁⟩, hs, hd⟩ := bind_eq_ok.mp hd
  unfold Scheduler.dispose at hs
  split at hs
  · cases hs
    cases hd
    exact lose_step h hw
  · cases hs
    obtain ⟨f, hf, hd⟩ := bind_eq_ok.mp hd
    cases hd
    exact deliver_step h hw hf
  · split at hs
    · cases hs
      obtain ⟨f, hf, hd⟩ := bind_eq_ok.mp hd
      cases hd
      exact deliver_step h hw hf
    · obtain ⟨⟨s₁, entry⟩, hs₁, hs⟩ := bind_eq_ok.mp hs
      cases hs
      cases hd
      obtain ⟨deliverAt, -, hs₁⟩ := bind_eq_ok.mp hs₁
      split at hs₁
      · cases hs₁
        -- a packet the queue has no place for would be lost, but there is always one
        rcases insertIdx_perm_or n.scheduler.pending
          (⟨deliverAt, n.scheduler.nextSeq, pkt⟩ : Scheduled Packet) _ with hi | hi
        · exact ⟨p, .refl p, h, ((hi.map Scheduled.pkt).append_right rest).trans hw⟩
        · obtain ⟨p', hsteps, halike, hw'⟩ := lose_step h hw
          refine ⟨p', hsteps, halike, ?_⟩
          dsimp only
          rw [hi]
          exact hw'
      · cases hs₁

/-- The batch of a turn is on the wire when it begins, and the queue of the scheduler is when it ends. -/
theorem disposeAll_steps : ∀ {pkts : List Packet} {n n' : Net ρ} {p : Pair}
    {sent : List (Packet × Verdict × Fate Packet)}, Alike addrs n.fabric p →
    (pkts ++ n.scheduler.pending.map Scheduled.pkt).Perm p.wire →
    n.disposeAll onPacket pkts = .ok (n', sent) → ∃ p', Steps p p' [] ∧ Related addrs n' p' := by
  intro pkts
  induction pkts with
  | nil =>
    intro n n' p sent h hw hd
    cases hd
    exact ⟨p, .refl p, h, hw⟩
  | cons pkt pkts ih =>
    intro n n' p sent h hw hd
    obtain ⟨⟨n₁, v, fate⟩, h₁, hd⟩ := bind_eq_ok.mp hd
    obtain ⟨⟨n₂, sent₂⟩, h₂, hd⟩ := bind_eq_ok.mp hd
    cases hd
    obtain ⟨p₁, hsteps₁, halike₁, hw₁⟩ := dispose_steps h
      (((List.perm_append_comm).cons pkt).trans hw) h₁
    obtain ⟨p₂, hsteps₂, hrel⟩ := ih halike₁ (List.perm_append_comm.trans hw₁) h₂
    exact ⟨p₂, hsteps₁.trans hsteps₂, hrel⟩

/-- **A turn of the scheduler** is three runs of the pair, one after the other: deliveries, a turn of
either host, and what the verdicts make of what they sent. -/
theorem tick_steps (h : Related addrs n p) {dt fuel : Nat} {r : TickRecord Packet}
    (ht : n.tick onPacket dt fuel = .ok (n', r)) : ∃ p', Steps p p' [] ∧ Related addrs n' p' := by
  obtain ⟨now, -, ht⟩ := bind_eq_ok.mp ht
  obtain ⟨f₁, h₁, ht⟩ := bind_eq_ok.mp ht
  obtain ⟨⟨f₂, batch⟩, h₂, ht⟩ := bind_eq_ok.mp ht
  obtain ⟨⟨n₃, sent⟩, h₃, ht⟩ := bind_eq_ok.mp ht
  cases ht
  have hw := h.wire
  rw [← List.take_append_drop
    ((n.scheduler.pending.findIdx? fun e => now < e.deliverAt).getD n.scheduler.pending.length)
    n.scheduler.pending, List.map_append] at hw
  obtain ⟨p₁, hsteps₁, halike₁, hw₁⟩ := deliverAll_steps h.alike hw h₁
  have hboth : Fabric.egressHosts fuel ([Side.left, Side.right].map sideId) f₁ = .ok (f₂, batch) := by
    rw [← h₂, Fabric.egressAll, halike₁.keys]
    rfl
  obtain ⟨p₂, hsteps₂, halike₂, hw₂⟩ := egressHosts_steps halike₁ hboth
  obtain ⟨p₃, hsteps₃, hrel⟩ := disposeAll_steps (p := p₂) (by exact halike₂) (by
    rw [hw₂]
    exact List.perm_append_comm.trans (hw₁.append_right batch)) h₃
  exact ⟨p₃, (hsteps₁.trans hsteps₂).trans hsteps₃, hrel⟩

/-! ## 4. Every run -/

/-- **A step of the net** is some steps of the pair with the same calls. -/
theorem step_steps (h : Related addrs n p) {op : Net.Op ρ} {events : List Net.Event}
    (hs : n.step onPacket op = .ok (n', events)) :
    ∃ p', Steps p p' (events.filterMap Net.seenOf) ∧ Related addrs n' p' := by
  cases op with
  | setCurrent id =>
    cases hs
    exact ⟨p, .refl p, h.alike, h.wire⟩
  | call c =>
    obtain ⟨id, -, hs⟩ := bind_eq_ok.mp hs
    obtain ⟨k, hk, hs⟩ := bind_eq_ok.mp hs
    obtain ⟨⟨k', r⟩, hc, hs⟩ := bind_eq_ok.mp hs
    cases hs
    obtain ⟨host, hhost, rfl⟩ := Fabric.kernel_eq_ok hk
    -- there are no hosts but the two
    obtain ⟨x, rfl⟩ : ∃ x, id = sideId x := by
      have hmem : id ∈ n.fabric.hosts.keys := IndexMap.mem_keys.mpr ⟨host, hhost⟩
      rw [h.alike.keys] at hmem
      rcases List.mem_cons.mp hmem with rfl | hmem
      · exact ⟨.left, rfl⟩
      · exact ⟨.right, List.mem_singleton.mp hmem⟩
    have hkernel : p.kernel x = host.kernel := Except.ok.inj ((h.alike.kernel_eq x).symm.trans hk)
    have hp := syscall_passes (sideId x) n.fabric.owner
      (h.alike.sound.bound hhost) hc
    rw [← hkernel] at hc hp
    have hput := h.alike.put hp.addresses hp.bound
    refine ⟨p.put x k', ?_, hput, h.wire⟩
    have hone := Steps.one (p := p) (.call x c) (r := r)
      (bind_eq_ok.mpr ⟨(k', r), hc, rfl⟩ : p.step (.call x c) = .ok (p.put x k', r))
    show Steps p _ [⟨sideId x, host.kernel, c, r⟩]
    rw [← hkernel]
    exact hone
  | rule r =>
    obtain ⟨n₁, h₁, hs⟩ := bind_eq_ok.mp hs
    cases hs
    unfold Net.installRule at h₁
    split at h₁
    · cases h₁
      exact ⟨p, .refl p, h.alike, h.wire⟩
    · cases h₁
  | uninstall id =>
    cases hs
    exact ⟨p, .refl p, h.alike, h.wire⟩
  | tick dt fuel =>
    obtain ⟨⟨n₁, r⟩, h₁, hs⟩ := bind_eq_ok.mp hs
    cases hs
    exact tick_steps h h₁

theorem run_steps : ∀ {ops : List (Net.Op ρ)} {n n' : Net ρ} {p : Pair} {events : List Net.Event},
    Related addrs n p → n.run onPacket ops = .ok (n', events) →
    ∃ p', Steps p p' (events.filterMap Net.seenOf) ∧ Related addrs n' p' := by
  intro ops
  induction ops with
  | nil =>
    intro n n' p events h hr
    cases hr
    exact ⟨p, .refl p, h⟩
  | cons op ops ih =>
    intro n n' p events h hr
    obtain ⟨⟨n₁, first⟩, h₁, hr⟩ := bind_eq_ok.mp hr
    obtain ⟨⟨n₂, rest⟩, h₂, hr⟩ := bind_eq_ok.mp hr
    cases hr
    obtain ⟨p₁, hsteps₁, hrel₁⟩ := step_steps h h₁
    obtain ⟨p₂, hsteps₂, hrel₂⟩ := ih hrel₁ h₂
    rw [List.filterMap_append]
    exact ⟨p₂, hsteps₁.trans hsteps₂, hrel₂⟩

/-- A net with its two hosts is the pair at its start, and their addresses are claimed once. -/
theorem start_related {cfg : KernelConfig}
    (h : (Net.withConfig cfg : Net ρ).addHosts [addrs .left, addrs .right] = .ok n) :
    Pair.Claims addrs ∧ Related addrs n (Pair.start (fun _ => cfg) addrs) := by
  have hfresh := Net.addHosts_fresh h
  obtain ⟨n₁, h₁, h⟩ := bind_eq_ok.mp h
  obtain ⟨n₂, h₂, h⟩ := bind_eq_ok.mp h
  cases h
  obtain ⟨⟨f₁, id₁⟩, hf₁, h₁⟩ := bind_eq_ok.mp h₁
  cases h₁
  obtain ⟨⟨f₂, id₂⟩, hf₂, h₂⟩ := bind_eq_ok.mp h₂
  cases h₂
  obtain ⟨hvalid₁, rfl⟩ := Fabric.addHost_eq_ok hf₁
  obtain ⟨hvalid₂, rfl⟩ := Fabric.addHost_eq_ok hf₂
  have hfree₁ := Fabric.validate_ok hvalid₁
  have hfree₂ := Fabric.validate_ok hvalid₂
  have hleft : ∀ ip, ((addrs .left).foldl (fun (m : IndexMap IpAddr HostId) a => m.insert a 0)
      IndexMap.empty).get? ip = if ip ∈ addrs .left then some 0 else none :=
    fun ip => Fabric.get?_claim (addrs .left) 0 ip IndexMap.empty
  have hboth : ∀ ip, ((addrs .right).foldl (fun (m : IndexMap IpAddr HostId) a => m.insert a 1)
      ((addrs .left).foldl (fun (m : IndexMap IpAddr HostId) a => m.insert a 0)
        IndexMap.empty)).get? ip
      = if ip ∈ addrs .right then some 1 else if ip ∈ addrs .left then some 0 else none := fun ip => by
    rw [Fabric.get?_claim, hleft]
  have hdisjoint : ∀ a ∈ addrs .right, a ∉ addrs .left := by
    intro a ha hl
    have hnone := (hleft a).symm.trans (hfree₂ a ha).2
    rw [if_pos hl] at hnone
    cases hnone
  refine ⟨fun x a ha => ?_, ⟨hfresh.sound, rfl, fun x => ?_, fun x ip => mem_addresses_host,
    fun x ip => (iff_of_eq (congrArg (· = _) (hboth ip))).trans ?_⟩, .nil⟩
  · cases x with
    | left => exact ⟨(hfree₁ a ha).1, fun hr => hdisjoint a hr ha⟩
    | right => exact ⟨(hfree₂ a ha).1, hdisjoint a ha⟩
  · cases x with
    | left => exact ⟨_, rfl, rfl⟩
    | right => exact ⟨_, rfl, rfl⟩
  · have hne := hdisjoint ip
    by_cases hr : ip ∈ addrs .right <;> by_cases hl : ip ∈ addrs .left <;> cases x <;>
      simp [hr, hl, sideId] at hne ⊢

/-- **A net of two hosts is a run of the pair.**  Whatever is called on the two hosts, whatever the rules
say and whenever they come and go, there is a run of the pair with the same calls in the same order, each
of which finds the same kernel and returns the same, and which ends with the same kernels and with the
packets on the wire that the scheduler holds.  The pair starts with the addresses claimed once. -/
theorem two_hosts_are_a_pair (cfg : KernelConfig) (addrs : Side → List IpAddr) (ops : List (Net.Op ρ))
    {events : List Net.Event}
    (hn : (Net.withConfig cfg).addHosts [addrs .left, addrs .right] = .ok n)
    (hr : n.run onPacket ops = .ok (n', events)) :
    Pair.Claims addrs ∧ ∃ pairOps p evs,
      (Pair.start (fun _ => cfg) addrs).run pairOps = .ok (p, evs)
        ∧ evs.filterMap seenOf = events.filterMap Net.seenOf
        ∧ (∀ x, n'.fabric.kernel (sideId x) = .ok (p.kernel x))
        ∧ (n'.scheduler.pending.map Scheduled.pkt).Perm p.wire := by
  obtain ⟨hclaims, hrel⟩ := start_related hn
  obtain ⟨p, ⟨pairOps, evs, hrun, hseen⟩, hrel'⟩ := run_steps hrel hr
  exact ⟨hclaims, pairOps, p, evs, hrun, hseen, hrel'.alike.kernel_eq, hrel'.wire⟩

/-- A rule that delays every packet, by its own length of time for either direction. -/
def delayBoth : Unit → Packet → Verdict × Unit
  | _, pkt => (.deliver (if pkt.dst = .v4 0x0A000001 then 1 else 2), ())

/-- A client connects and sends two bytes, which the server reads. -/
def delayedOps : List (Net.Op Unit) :=
  [.rule (), .setCurrent 1, .call (.bind ⟨.v4 0x0A000002, 80⟩ .stream), .call (.listen 1 8),
    .setCurrent 0, .call (.openSocket .inet .stream), .call (.connect 1 ⟨.v4 0x0A000002, 80⟩),
    .tick 1 4, .tick 2 4, .tick 1 4, .call (.connect 1 ⟨.v4 0x0A000002, 80⟩), .call (.send 1 [1, 2]),
    .tick 2 4, .tick 2 4, .setCurrent 1, .call (.accept 1), .call (.recv 2 8)]

def delayedAddrs : Side → List IpAddr
  | .left => [.v4 0x0A000001]
  | .right => [.v4 0x0A000002]

/-- The bytes that were read, and where. -/
def Seen.bytes (s : Seen) : Option (HostId × List UInt8) :=
  match s.reply with
  | .bytes (.ready (.ok bytes)) => some (s.host, bytes)
  | _ => none

theorem two_hosts_are_a_pair_delayed : ∃ pairOps p evs,
    (Pair.start (fun _ => .default) delayedAddrs).run pairOps = .ok (p, evs)
      ∧ (evs.filterMap seenOf).map Seen.host = [1, 1, 0, 0, 0, 0, 1, 1]
      ∧ (evs.filterMap seenOf).filterMap Seen.bytes = [(1, [1, 2])] := by
  have hfacts : ((Net.withConfig .default : Net Unit).addHosts
      [delayedAddrs .left, delayedAddrs .right]).toOption.bind (fun n =>
        (n.run delayBoth delayedOps).toOption.map fun r =>
          ((r.2.filterMap Net.seenOf).map Seen.host, (r.2.filterMap Net.seenOf).filterMap Seen.bytes))
      = some ([1, 1, 0, 0, 0, 0, 1, 1], [(1, [1, 2])]) := by
    decide +kernel
  obtain ⟨n, hn, hfacts⟩ := Option.bind_eq_some_iff.mp hfacts
  obtain ⟨⟨n', events⟩, hr, hseen⟩ := Option.map_eq_some_iff.mp hfacts
  obtain ⟨hhosts, hbytes⟩ := Prod.ext_iff.mp hseen
  obtain ⟨-, pairOps, p, evs, hrun, hsame, -⟩ := two_hosts_are_a_pair .default delayedAddrs delayedOps
    (toOption_eq_some.mp hn) (toOption_eq_some.mp hr)
  refine ⟨pairOps, p, evs, hrun, ?_, ?_⟩
  · rw [hsame]
    exact hhosts
  · rw [hsame]
    exact hbytes

end Turmoil.Network
