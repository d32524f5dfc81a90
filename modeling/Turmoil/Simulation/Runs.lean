/-
# Whole simulations

What a test does with a simulation: it registers clients and hosts, steps it, crashes and bounces
hosts, and injects faults between the steps (`SimOp`).  `history` is the simulation after a list of
such calls, with all that happened and the steps that failed.

`Inv` holds after every history.  Every link keeps its ledger, so no message is lost or doubled, and
shares the clock of the network; the links are exactly those between two different hosts; and the hosts
are those that have a runtime.  It is kept by every call, as `apply_cases` sorts the calls into three
kinds: steps, which are treated in `Turmoil.Simulation.Step`, new hosts, and all others, in which no
time passes (`Steady`).

Two theorems come out of it.  `simulation_conserves_messages` follows each message from its send to the
host that gets it.  `network_is_complete` says which links there are; with it, the refusals of `send`
and of a registration are those of hosts that are missing, or there already, and of nothing else.

The other results are about histories in which no software failed: a step that software ends is not
finished, and leaves the clocks of some hosts behind.
-/
import Turmoil.Simulation.Step
import Turmoil.Top.Punctual

namespace Turmoil.Simulation

open Turmoil.Net (IpAddr SocketAddr)
open Turmoil.Top

variable {μ H : Type}

/-! ## 1. Calls -/

/-- A call of `Sim`.  A fault or a latency between two sets of hosts is one call for each pair. -/
inductive SimOp (μ H : Type) where
  | client (addr : IpAddr) (instant : Nat) (net : H)
  | host (addr : IpAddr) (instant : Nat) (net : H)
  | crash (hosts : List (IpAddr × Nat × List (Act μ H)))
  | bounce (hosts : List (IpAddr × Nat × List (Act μ H)))
  | fault (f : Fault) (a b : IpAddr)
  | setMaxMessageLatency (value : Duration)
  | setLinkMessageLatency (a b : IpAddr) (value : Duration)
  | setLinkMaxMessageLatency (a b : IpAddr) (value : Duration)
  /-- `SentRef::deliver`, through `Sim::links`. -/
  | deliverSent (p : Pair) (i : Nat)
  | step (ts : IpAddr → Turn μ H) (order : Shuffle)

namespace Sim

/-- The simulation with another topology. -/
def withTopology (s : Sim μ H) (t : Topology μ) : Sim μ H :=
  { s with world := { s.world with topology := t } }

/-- The failure of a step. -/
def failureOf : Except Failure Bool → List Failure
  | .error failure => [failure]
  | .ok _ => []

/-- A call, with what happened on the links and on the clocks, and the failure of a step. -/
def apply (given : Given μ H) (s : Sim μ H) :
    SimOp μ H → Except SimPanic (Sim μ H × List (SimEvent μ) × List Failure)
  | .client addr instant net => do
    let s ← s.add .client addr instant net
    .ok (s, [], [])
  | .host addr instant net => do
    let s ← s.add .host addr instant net
    .ok (s, [], [])
  | .crash hosts => do
    let (s, events) ← forHosts crashOne s hosts
    .ok (s, events.map .link, [])
  | .bounce hosts => do
    let (s, events) ← forHosts bounceOne s hosts
    .ok (s, events.map .link, [])
  | .fault f a b => do
    let t ← lift (s.world.topology.fault f a b)
    .ok (s.withTopology t, (s.world.topology.faultEvents f a b).map .link, [])
  | .setMaxMessageLatency value =>
    .ok (s.withTopology (s.world.topology.setMaxMessageLatency value), [], [])
  | .setLinkMessageLatency a b value => do
    let t ← lift (s.world.topology.setLinkMessageLatency a b value)
    .ok (s.withTopology t, [], [])
  | .setLinkMaxMessageLatency a b value => do
    let t ← lift (s.world.topology.setLinkMaxMessageLatency a b value)
    .ok (s.withTopology t, [], [])
  | .deliverSent p i => .ok (s.withTopology (s.world.topology.deliverSent p i), [], [])
  | .step ts order => do
    let (s, events, outcome) ← s.step given ts order
    .ok (s, events, failureOf outcome)

/-- The simulation after a list of calls, all that happened, and the failures of its steps. -/
def history (given : Given μ H) (s : Sim μ H) :
    List (SimOp μ H) → Except SimPanic (Sim μ H × List (SimEvent μ) × List Failure)
  | [] => .ok (s, [], [])
  | op :: ops => do
    let (s, first, failed) ← s.apply given op
    let (s, rest, later) ← history given s ops
    .ok (s, first ++ rest, failed ++ later)

/-! ## 2. The calls between the steps -/

variable {given : Given μ H} {s s' : Sim μ H} {ev : List (TopEvent μ)}

/-- What a call leaves that is no step and adds no host.  Time stands still, and every host keeps its
runtime, or gets a new one of the same kind. -/
structure Steady (receive : H → Envelope μ → H × Option μ) (s s' : Sim μ H) (ev : List (TopEvent μ)) :
    Prop where
  same : s'.config = s.config ∧ s'.sinceEpoch = s.sinceEpoch ∧ s'.elapsed = s.elapsed
    ∧ s'.steps = s.steps
  acted : World.Acted receive s.world s'.world ev
  kinds : ∀ a, (s'.rts.get? a).map Rt.kind = (s.rts.get? a).map Rt.kind

theorem Steady.trans {receive : H → Envelope μ → H × Option μ} {s'' : Sim μ H}
    {ev' : List (TopEvent μ)} (h : Steady receive s s' ev) (h' : Steady receive s' s'' ev') :
    Steady receive s s'' (ev ++ ev') where
  same := ⟨h'.same.1.trans h.same.1, h'.same.2.1.trans h.same.2.1,
    h'.same.2.2.1.trans h.same.2.2.1, h'.same.2.2.2.trans h.same.2.2.2⟩
  acted := h.acted.trans h'.acted
  kinds a := (h'.kinds a).trans (h.kinds a)

/-- Faults and latencies reach the topology only. -/
theorem steady_withTopology {t : Topology μ} {receive : H → Envelope μ → H × Option μ}
    (h : Steers receive Stills s.world.topology t ev) (hnow : t.now = s.world.topology.now) :
    Steady receive s (s.withTopology t) ev :=
  ⟨⟨rfl, rfl, rfl, rfl⟩, ⟨h, hnow, fun _ => rfl⟩, fun _ => rfl⟩

/-- A runtime is replaced, and what is dropped acts.  `crash` and `bounce` differ in the runtime they
leave, which does not matter here. -/
theorem steady_drops {addr : IpAddr} {rt rt' : Rt} {w : World μ H} {drops : List (Act μ H)}
    (receive : H → Envelope μ → H × Option μ) (hrt : s.rts.get? addr = some rt)
    (hkind : rt'.kind = rt.kind)
    (hw : ({ s.world with current := some addr } : World μ H).performAll drops = .ok (w, ev)) :
    Steady receive s { s with world := w, rts := s.rts.modify addr fun _ => rt' } ev := by
  have hacted := World.performAll_acted receive hw
  refine ⟨⟨rfl, rfl, rfl, rfl⟩, ⟨hacted.steers, hacted.now, hacted.simTime⟩, fun a => ?_⟩
  rw [IndexMap.get?_modify]
  split
  · rename_i ha
    rw [ha, hrt, Option.map_some, Option.map_some, Option.map_some, hkind]
  · rfl

/-- A crash keeps the clock of the host, which goes on when the host is bounced. -/
theorem crashOne_steady {addr : IpAddr} {instant : Nat} {drops : List (Act μ H)}
    (receive : H → Envelope μ → H × Option μ)
    (h : s.crashOne addr instant drops = .ok (s', ev)) : Steady receive s s' ev := by
  rw [crashOne] at h
  split at h
  · cases h
  · rename_i rt hrt
    obtain ⟨⟨rt', cancelled⟩, hcrash, h⟩ := Net.bind_eq_ok.mp h
    obtain ⟨⟨w, events⟩, hw, h⟩ := Net.bind_eq_ok.mp h
    cases h
    have hkind : rt'.kind = rt.kind := by
      unfold Rt.crash at hcrash
      split at hcrash
      · split at hcrash <;> cases hcrash <;> rfl
      · cases hcrash
    exact steady_drops receive hrt hkind hw

theorem bounceOne_steady {addr : IpAddr} {instant : Nat} {drops : List (Act μ H)}
    (receive : H → Envelope μ → H × Option μ)
    (h : s.bounceOne addr instant drops = .ok (s', ev)) : Steady receive s s' ev := by
  rw [bounceOne] at h
  split at h
  · cases h
  · rename_i rt hrt
    obtain ⟨⟨rt', cancelled⟩, hbounce, h⟩ := Net.bind_eq_ok.mp h
    obtain ⟨⟨w, events⟩, hw, h⟩ := Net.bind_eq_ok.mp h
    cases h
    have hkind : rt'.kind = rt.kind := by
      unfold Rt.bounce at hbounce
      split at hbounce <;> cases hbounce
      rfl
    exact steady_drops receive hrt hkind hw

/-- A call for several hosts is made for each of them in turn. -/
theorem forHosts_steady {f : Sim μ H → IpAddr → Nat → List (Act μ H) →
      Except SimPanic (Sim μ H × List (TopEvent μ))} {receive : H → Envelope μ → H × Option μ}
    (hf : ∀ {s s' : Sim μ H} {addr instant drops ev}, f s addr instant drops = .ok (s', ev) →
      Steady receive s s' ev) :
    ∀ {hosts : List (IpAddr × Nat × List (Act μ H))} {s s' : Sim μ H} {ev : List (TopEvent μ)},
      forHosts f s hosts = .ok (s', ev) → Steady receive s s' ev := by
  intro hosts
  induction hosts with
  | nil =>
    intro s s' ev h
    cases h
    exact ⟨⟨rfl, rfl, rfl, rfl⟩, ⟨.refl Stills.nil _, rfl, fun _ => rfl⟩, fun _ => rfl⟩
  | cons host hosts ih =>
    intro s s' ev h
    obtain ⟨addr, instant, drops⟩ := host
    obtain ⟨⟨s₁, first⟩, h₁, h⟩ := Net.bind_eq_ok.mp h
    obtain ⟨⟨s₂, rest⟩, h₂, h⟩ := Net.bind_eq_ok.mp h
    cases h
    exact (hf h₁).trans (ih h₂)

/-- What `Sim::client` and `Sim::host` leave: a clock that shows the time of the simulation, a runtime,
and a link to every host that is there. -/
structure Added (kind : Kind) (addr : IpAddr) (instant : Nat) (s s' : Sim μ H) : Prop where
  same : s'.config = s.config ∧ s'.sinceEpoch = s.sinceEpoch ∧ s'.elapsed = s.elapsed
    ∧ s'.steps = s.steps
  fresh : s.world.simTime addr = none
  simTime : ∀ a, s'.world.simTime a = if a = addr then some s.elapsed.nanos else s.world.simTime a
  topology : s.world.hosts.keys.foldlM (fun t existing => t.register existing addr) s.world.topology
    = .ok s'.world.topology
  rts : s'.rts = s.rts.insert addr ⟨kind, instant, true⟩

theorem add_added {kind : Kind} {addr : IpAddr} {instant : Nat} {net : H}
    (h : s.add kind addr instant net = .ok s') : Added kind addr instant s s' := by
  obtain ⟨w, hw, h⟩ := Net.bind_eq_ok.mp h
  cases h
  unfold World.register at hw
  split at hw
  · cases hw
  · rename_i hfresh
    obtain ⟨t, ht, hw⟩ := Net.bind_eq_ok.mp hw
    cases hw
    refine ⟨⟨rfl, rfl, rfl, rfl⟩, ?_, fun a => ?_, lift_eq_ok.mp ht, rfl⟩
    · rw [World.simTime, IndexMap.contains_eq_false.mp (Bool.eq_false_iff.mpr hfresh)]
      rfl
    · rw [World.simTime, IndexMap.get?_insert]
      split
      · simp only [Option.map_some, HostTimer.new, Duration.fromMillis]
        rfl
      · rfl

/-- **A call is a step, adds a host, or leaves the clocks as they are.**  The invariants below are
shown for these three cases and not for the ten calls. -/
theorem apply_cases {op : SimOp μ H} {ev : List (SimEvent μ)} {failed : List Failure}
    (h : s.apply given op = .ok (s', ev, failed)) :
    (∃ ts order outcome, op = .step ts order ∧ s.step given ts order = .ok (s', ev, outcome)
      ∧ failed = failureOf outcome)
    ∨ (∃ kind addr instant, Added kind addr instant s s' ∧ ev = [] ∧ failed = [])
    ∨ (∃ events, Steady given.receive s s' events ∧ ev = events.map .link ∧ failed = []) := by
  cases op with
  | client addr instant net =>
    obtain ⟨s₁, h₁, h⟩ := Net.bind_eq_ok.mp h
    cases h
    exact .inr (.inl ⟨.client, addr, instant, add_added h₁, rfl, rfl⟩)
  | host addr instant net =>
    obtain ⟨s₁, h₁, h⟩ := Net.bind_eq_ok.mp h
    cases h
    exact .inr (.inl ⟨.host, addr, instant, add_added h₁, rfl, rfl⟩)
  | crash hosts =>
    obtain ⟨⟨s₁, events⟩, h₁, h⟩ := Net.bind_eq_ok.mp h
    cases h
    exact .inr (.inr ⟨events, forHosts_steady (crashOne_steady given.receive) h₁, rfl, rfl⟩)
  | bounce hosts =>
    obtain ⟨⟨s₁, events⟩, h₁, h⟩ := Net.bind_eq_ok.mp h
    cases h
    exact .inr (.inr ⟨events, forHosts_steady (bounceOne_steady given.receive) h₁, rfl, rfl⟩)
  | fault f a b =>
    obtain ⟨t, ht, h⟩ := Net.bind_eq_ok.mp h
    cases h
    obtain ⟨hst, hnow⟩ := Topology.fault_steers (lift_eq_ok.mp ht)
    exact .inr (.inr ⟨_, steady_withTopology hst hnow, rfl, rfl⟩)
  | setMaxMessageLatency value =>
    cases h
    exact .inr (.inr ⟨[], steady_withTopology (Topology.setMaxMessageLatency_steers _ value) rfl,
      rfl, rfl⟩)
  | setLinkMessageLatency a b value =>
    obtain ⟨t, ht, h⟩ := Net.bind_eq_ok.mp h
    cases h
    obtain ⟨hst, hnow⟩ := Topology.withLink_steers (lift_eq_ok.mp ht) fun _ => rfl
    exact .inr (.inr ⟨[], steady_withTopology hst hnow, rfl, rfl⟩)
  | setLinkMaxMessageLatency a b value =>
    obtain ⟨t, ht, h⟩ := Net.bind_eq_ok.mp h
    cases h
    obtain ⟨hst, hnow⟩ := Topology.withLink_steers (lift_eq_ok.mp ht) fun _ => rfl
    exact .inr (.inr ⟨[], steady_withTopology hst hnow, rfl, rfl⟩)
  | deliverSent p i =>
    cases h
    exact .inr (.inr ⟨[], steady_withTopology (Topology.deliverSent_steers _ p i) rfl, rfl, rfl⟩)
  | step ts order =>
    obtain ⟨⟨s₁, events, outcome⟩, h₁, h⟩ := Net.bind_eq_ok.mp h
    cases h
    exact .inl ⟨ts, order, outcome, rfl, h₁, rfl⟩

/-! ## 3. What holds of every history -/

/-- A link keeps its ledger and to its two ends, and shares the clock of the network. -/
structure Balanced (now : Nat) (p : Pair) (l : Link μ) (tr : List (Event μ)) : Prop where
  ledger : Ledger (fun _ => []) l tr
  now : l.now = now
  routed : Routed p tr

/-- Over a new link nothing has gone yet. -/
theorem Balanced.new (now : Nat) (p : Pair) : Balanced (μ := μ) now p (Link.new now) [] :=
  ⟨Ledger.new now, rfl, .of_none fun _ => rfl⟩

/-- What is done to a link between two ticks keeps its books. -/
theorem Balanced.stills {receive : H → Envelope μ → H × Option μ} {now : Nat} {p : Pair}
    {l l' : Link μ} {tr ev : List (Event μ)} {ops : List (LinkOp μ H)} (h : Balanced now p l tr)
    (hstill : Stills p ops) (hrun : l.run receive ops = some (l', ev)) :
    Balanced now p l' (tr ++ ev) := by
  obtain ⟨hledger, hnow, hrouted⟩ := h.ledger.stills h.routed hstill hrun
  exact ⟨hledger, hnow.trans h.now, hrouted⟩

/-- A tick moves the clock of a link, and what is due with it.  The clock does not go back, which the
ledger needs for its order. -/
theorem Balanced.tick {receive : H → Envelope μ → H × Option μ} {now now' : Nat} {p : Pair}
    {l l' : Link μ} {tr ev : List (Event μ)} (h : Balanced now p l tr) (hle : now ≤ now')
    (hrun : l.run receive [.tick now'] = some (l', ev)) : Balanced now' p l' (tr ++ ev) := by
  obtain ⟨⟨l₁, first⟩, h₁, hrun⟩ := Option.bind_eq_some_iff.mp hrun
  cases hrun
  rw [List.append_nil]
  have hforward : (LinkOp.tick now' : LinkOp μ H).Forward l := h.now.trans_le hle
  have hledger := h.ledger.step hforward h₁
  have hstep : l.tick now' = some (l', first) := h₁
  rw [Link.tick, Link.processDeliverables_eq] at hstep
  cases hstep
  exact ⟨hledger, (Link.settled_fields _).2.1,
    h.routed.append (.of_none fun host => (moves host _).1)⟩

/-- Two different hosts. -/
def Linked (w : World μ H) (p : Pair) : Prop :=
  ∃ a b, (w.simTime a).isSome ∧ (w.simTime b).isSome ∧ pair a b = .ok p

/-- **What holds of every history**, with what happened on the links.  `members` ties the two tables of
the simulation together: the world has the hosts, the simulation their runtimes. -/
structure Inv (s : Sim μ H) (tr : List (TopEvent μ)) : Prop where
  links : s.world.topology.Every (Balanced s.world.topology.now) tr
  members : ∀ a, (s.world.simTime a).isSome = s.rts.contains a
  network : ∀ p, s.world.topology.links.contains p = true ↔ Linked s.world p

/-- The links of a new host: one to each host that is there, and the others stay. -/
theorem registerAll {addr : IpAddr} {P : Pair → Link μ → List (Event μ) → Prop}
    {tr : List (TopEvent μ)} : ∀ {keys : List IpAddr} {t t' : Topology μ},
      keys.foldlM (fun t existing => t.register existing addr) t = .ok t' → t.Every P tr →
      (∀ p, P p (Link.new t.now) []) →
      t'.now = t.now ∧ t'.Every P tr ∧ ∀ p, t'.links.contains p = true ↔
        t.links.contains p = true ∨ ∃ a ∈ keys, pair a addr = .ok p := by
  intro keys
  induction keys with
  | nil =>
    intro t t' h hevery _
    cases h
    exact ⟨rfl, hevery, fun p => by simp⟩
  | cons a keys ih =>
    intro t t' h hevery hnew
    obtain ⟨t₁, h₁, h⟩ := foldlM_cons_eq_ok.mp h
    have hevery₁ := Topology.register_every h₁ hevery hnew
    obtain ⟨p, hp, -, rfl⟩ := Topology.register_eq_ok.mp h₁
    obtain ⟨hnow, hevery', hlinks⟩ := ih h hevery₁ hnew
    refine ⟨hnow, hevery', fun q => ?_⟩
    rw [hlinks, IndexMap.contains_insert]
    simp only [Bool.or_eq_true, decide_eq_true_eq, List.mem_cons, exists_eq_or_imp, hp,
      Except.ok.injEq]
    constructor
    · rintro ((rfl | h) | h)
      · exact .inr (.inl rfl)
      · exact .inl h
      · exact .inr (.inr h)
    · rintro (h | rfl | h)
      · exact .inl (.inr h)
      · exact .inl (.inl rfl)
      · exact .inr h

variable {tr : List (TopEvent μ)}

theorem Inv.new (config : Config) (latency : Latency) (sinceEpoch : Duration) :
    Inv (Sim.new config latency sinceEpoch : Sim μ H) [] where
  links := ⟨(fun _ _ h => by cases h), fun _ _ => rfl⟩
  members _ := rfl
  network p := by
    refine iff_of_false (fun h => by cases h) ?_
    rintro ⟨a, b, ha, -, -⟩
    cases ha

theorem Inv.steady (h : Inv s tr) (hs : Steady given.receive s s' ev) : Inv s' (tr ++ ev) where
  links := by
    rw [hs.acted.now]
    exact hs.acted.steers.every h.links fun hok hp hrun => hp.stills hok hrun
  members a := by
    rw [hs.acted.simTime, h.members]
    have hkind := congrArg Option.isSome (hs.kinds a)
    simp only [Option.isSome_map] at hkind
    exact hkind.symm
  network p := by
    rw [hs.acted.steers.contains, h.network]
    simp only [Linked, hs.acted.simTime]

/-- A new host.  Its links are new, as it was not there before; so the links are again those between
two different hosts. -/
theorem Inv.added {kind : Kind} {addr : IpAddr} {instant : Nat} (h : Inv s tr)
    (hs : Added kind addr instant s s') : Inv s' tr := by
  obtain ⟨hnow, hevery, hlinks⟩ :=
    registerAll hs.topology h.links (.new s.world.topology.now)
  have hsome : ∀ a, (s'.world.simTime a).isSome
      = (decide (a = addr) || (s.world.simTime a).isSome) := by
    intro a
    rw [hs.simTime]
    by_cases ha : a = addr <;> simp [ha]
  refine ⟨by rw [hnow]; exact hevery, fun a => ?_, fun p => ?_⟩
  · rw [hsome, hs.rts, IndexMap.contains_insert, h.members]
  · rw [hlinks, h.network]
    have hkeys : ∀ a, a ∈ s.world.hosts.keys ↔ (s.world.simTime a).isSome = true := by
      intro a
      rw [← IndexMap.contains_iff_mem_keys, World.contains_eq_isSome]
    simp only [Linked, hkeys, hsome, Bool.or_eq_true, decide_eq_true_eq]
    constructor
    · rintro (⟨a, b, ha, hb, hp⟩ | ⟨a, ha, hp⟩)
      · exact ⟨a, b, .inr ha, .inr hb, hp⟩
      · exact ⟨a, addr, .inr ha, .inl rfl, hp⟩
    · rintro ⟨a, b, rfl | ha, rfl | hb, hp⟩
      · rw [pair_self] at hp
        cases hp
      · exact .inr ⟨b, hb, by rw [pair_comm]; exact hp⟩
      · exact .inr ⟨a, ha, hp⟩
      · exact .inl ⟨a, b, ha, hb, hp⟩

/-- A step, and a step that fails. -/
theorem Inv.stepped {order : Shuffle} {ev : List (SimEvent μ)} {outcome : Except Failure Bool}
    (h : Inv s tr) (hs : Stepped given order s s' ev outcome) : Inv s' (tr ++ onLinks ev) := by
  obtain ⟨moved, hev, hst, -⟩ := hs.links
  have htick := @Top.Topology.tickBy_steers _ _ given.receive s.world.topology (given.slept s.config.tick)
  refine ⟨?_, fun a => ?_, fun p => ?_⟩
  · have hticked := htick.every (Q := Balanced s'.world.topology.now) h.links
      fun hok hp hrun => by
        rw [hok, ← hs.now] at hrun
        exact hp.tick (by rw [hs.now]; exact Nat.le_add_right _ _) hrun
    rw [hev, ← List.append_assoc]
    exact hst.every hticked fun hok hp hrun => hp.stills hok hrun
  · rw [hs.hosts, h.members]
    have hkind := congrArg Option.isSome (hs.kinds a)
    simp only [Option.isSome_map] at hkind
    exact hkind.symm
  · rw [hst.contains, htick.contains, h.network]
    simp only [Linked, hs.hosts]

theorem Inv.apply {op : SimOp μ H} {ev : List (SimEvent μ)} {failed : List Failure} (h : Inv s tr)
    (hs : s.apply given op = .ok (s', ev, failed)) : Inv s' (tr ++ onLinks ev) := by
  obtain ⟨ts, order, outcome, -, hstep, -⟩ | ⟨kind, addr, instant, hadd, rfl, -⟩
    | ⟨events, hsteady, rfl, -⟩ := apply_cases hs
  · exact h.stepped (step_stepped hstep)
  · rw [show onLinks ([] : List (SimEvent μ)) = [] from rfl, List.append_nil]
    exact h.added hadd
  · rw [onLinks_map]
    exact h.steady hsteady

/-- **Every history**, by induction on the calls. -/
theorem Inv.history : ∀ {ops : List (SimOp μ H)} {s s' : Sim μ H} {tr : List (TopEvent μ)}
    {ev : List (SimEvent μ)} {failed : List Failure}, Inv s tr →
      s.history given ops = .ok (s', ev, failed) → Inv s' (tr ++ onLinks ev) := by
  intro ops
  induction ops with
  | nil =>
    intro s s' tr ev failed h hs
    cases hs
    rw [show onLinks ([] : List (SimEvent μ)) = [] from rfl, List.append_nil]
    exact h
  | cons op ops ih =>
    intro s s' tr ev failed h hs
    obtain ⟨⟨s₁, first, failed₁⟩, h₁, hs⟩ := Net.bind_eq_ok.mp hs
    obtain ⟨⟨s₂, rest, failed₂⟩, h₂, hs⟩ := Net.bind_eq_ok.mp hs
    cases hs
    rw [onLinks_append, ← List.append_assoc]
    exact ih (h.apply h₁) h₂

/-! ## 4. Results -/

/-- **No message is lost or doubled in a simulation**, whatever its software does, and over crashes,
faults and steps that fail.  For every link and every host: what was sent over the link goes between
its two ends; what was sent to the host is what was dropped, what is on the link, and what was handed
over, each once; and what was handed over is what became ready, in that order and not before it was
due. -/
theorem simulation_conserves_messages (given : Given μ H) (config : Config) (latency : Latency)
    (sinceEpoch : Duration) (ops : List (SimOp μ H)) {s : Sim μ H} {ev : List (SimEvent μ)}
    {failed : List Failure}
    (hs : (Sim.new config latency sinceEpoch).history given ops = .ok (s, ev, failed)) :
    (∀ p l, s.world.topology.links.get? p = some l → ∀ host,
      (∀ e ∈ enteredTo host (eventsOn p (onLinks ev)), pair e.src.ip e.dst.ip = .ok p)
      ∧ (enteredTo host (eventsOn p (onLinks ev))).Perm
        (droppedTo host (eventsOn p (onLinks ev)) ++ (l.link.sentTo host
          ++ (l.link.readyFor host ++ (deliveredTo host (eventsOn p (onLinks ev))).map Prod.fst)))
      ∧ List.Forall₂ (fun r d => r.1 = d.1 ∧ r.2 ≤ d.2)
        ((readyTo host (eventsOn p (onLinks ev))).take
          (deliveredTo host (eventsOn p (onLinks ev))).length)
        (deliveredTo host (eventsOn p (onLinks ev))))
    ∧ ∀ p, s.world.topology.links.get? p = none → eventsOn p (onLinks ev) = [] := by
  have hinv := (Inv.new config latency sinceEpoch).history hs
  rw [List.nil_append] at hinv
  refine ⟨fun p l hl host => ?_, hinv.links.others⟩
  have hbalanced := hinv.links.links p l hl
  exact ⟨hbalanced.routed host, hbalanced.ledger.balance host, hbalanced.ledger.punctual_eq host⟩

theorem pair_eq_ok {a b : IpAddr} (h : a ≠ b) : ∃ p, pair a b = .ok p := ⟨_, if_neg h⟩

/-- The two ends of a link. -/
theorem pair_ends {a b : IpAddr} {p : Pair} (h : pair a b = .ok p) :
    (p.1 = a ∧ p.2 = b) ∨ p.1 = b ∧ p.2 = a := by
  unfold pair at h
  split at h
  · cases h
  · split at h <;> cases h
    · exact .inl ⟨rfl, rfl⟩
    · exact .inr ⟨rfl, rfl⟩

/-- A link has one pair of ends. -/
theorem pair_inj {a b c d : IpAddr} {p : Pair} (h : pair a b = .ok p) (h' : pair c d = .ok p) :
    (a = c ∧ b = d) ∨ a = d ∧ b = c := by
  obtain ⟨h1, h2⟩ | ⟨h1, h2⟩ := pair_ends h <;> obtain ⟨h3, h4⟩ | ⟨h3, h4⟩ := pair_ends h'
  · exact .inl ⟨h1.symm.trans h3, h2.symm.trans h4⟩
  · exact .inr ⟨h1.symm.trans h3, h2.symm.trans h4⟩
  · exact .inr ⟨h2.symm.trans h4, h1.symm.trans h3⟩
  · exact .inl ⟨h2.symm.trans h4, h1.symm.trans h3⟩

theorem Linked.iff {w : World μ H} {a b : IpAddr} {p : Pair} (hp : pair a b = .ok p) :
    Linked w p ↔ (w.simTime a).isSome = true ∧ (w.simTime b).isSome = true := by
  constructor
  · rintro ⟨c, d, hc, hd, hp'⟩
    obtain ⟨rfl, rfl⟩ | ⟨rfl, rfl⟩ := pair_inj hp hp'
    · exact ⟨hc, hd⟩
    · exact ⟨hd, hc⟩
  · rintro ⟨ha, hb⟩
    exact ⟨a, b, ha, hb, hp⟩

/-- The loop of `World::register` finds no link that is there, so its assertion does not fail. -/
theorem registerAll_ok {addr : IpAddr} : ∀ {keys : List IpAddr} {t : Topology μ}, keys.Nodup →
    addr ∉ keys → (∀ a ∈ keys, ∀ p, pair a addr = .ok p → t.links.contains p = false) →
      ∃ t', keys.foldlM (fun t existing => t.register existing addr) t = .ok t' := by
  intro keys
  induction keys with
  | nil => exact fun _ _ _ => ⟨_, rfl⟩
  | cons a keys ih =>
    intro t hnodup haddr hfree
    obtain ⟨ha, hnodup⟩ := List.nodup_cons.mp hnodup
    obtain ⟨hne, haddr⟩ := not_or.mp (mt List.mem_cons.mpr haddr)
    obtain ⟨p, hp⟩ := pair_eq_ok (Ne.symm hne)
    have hnone := IndexMap.contains_eq_false.mp (hfree a (List.mem_cons_self ..) p hp)
    have h₁ := Topology.register_eq_ok.mpr ⟨p, hp, hnone, rfl⟩
    obtain ⟨t', h'⟩ := @ih { t with links := t.links.insert p (.new t.now) } hnodup haddr
      fun b hb q hq => by
        rw [IndexMap.contains_insert, hfree b (List.mem_cons_of_mem _ hb) q hq, Bool.or_false,
          decide_eq_false_iff_not]
        rintro rfl
        obtain ⟨rfl, -⟩ | ⟨rfl, -⟩ := pair_inj hq hp
        · exact ha hb
        · exact haddr hb
    exact ⟨t', foldlM_cons_eq_ok.mpr ⟨_, h₁, h'⟩⟩

/-- **The network is complete.**  After every history the links are those between two different hosts,
in the order of their addresses.  So a message is refused exactly if its sender or its receiver is no
host, and a host can be added at every address but those of the hosts. -/
theorem network_is_complete (given : Given μ H) (config : Config) (latency : Latency)
    (sinceEpoch : Duration) (ops : List (SimOp μ H)) {s : Sim μ H} {ev : List (SimEvent μ)}
    {failed : List Failure}
    (hs : (Sim.new config latency sinceEpoch).history given ops = .ok (s, ev, failed)) :
    (∀ p, s.world.topology.links.contains p = true ↔ ∃ a b, s.world.hosts.contains a = true
      ∧ s.world.hosts.contains b = true ∧ pair a b = .ok p)
    ∧ (∀ draw e t' sent r, s.world.topology.sendMessage draw e = .ok (t', sent, r) →
      (r = .error .connectionRefused ↔
        ¬ (s.world.hosts.contains e.src.ip = true ∧ s.world.hosts.contains e.dst.ip = true)))
    ∧ ∀ kind addr instant net, (∃ s', s.add kind addr instant net = .ok s') ↔
      s.world.hosts.contains addr = false := by
  have hinv := (Inv.new config latency sinceEpoch).history hs
  refine ⟨fun p => ?_, fun draw e t' sent r h => ?_, fun kind addr instant net => ?_⟩
  · simp only [World.contains_eq_isSome]
    exact hinv.network p
  · obtain ⟨p, hp, h⟩ := Net.bind_eq_ok.mp h
    rw [World.contains_eq_isSome, World.contains_eq_isSome, ← Linked.iff hp, ← hinv.network,
      IndexMap.contains_iff]
    split at h
    · rename_i hnone
      cases h
      rw [hnone]
      refine iff_of_true rfl ?_
      rintro ⟨l, hl⟩
      cases hl
    · rename_i l hl
      obtain ⟨⟨l', events⟩, -, h⟩ := Net.bind_eq_ok.mp h
      cases h
      exact iff_of_false (fun h => by cases h) (not_not.mpr ⟨l, hl⟩)
  · constructor
    · rintro ⟨s', h⟩
      rw [World.contains_eq_isSome, (add_added h).fresh]
      rfl
    · intro hfree
      have hnot : addr ∉ s.world.hosts.keys := by
        rw [← IndexMap.contains_iff_mem_keys, hfree]
        decide
      obtain ⟨t', h⟩ := registerAll_ok s.world.hosts.keys_nodup hnot fun a _ p hp => by
        rw [Bool.eq_false_iff]
        intro hlink
        have hmember := ((Linked.iff hp).mp ((hinv.network p).mp hlink)).2
        rw [← World.contains_eq_isSome, hfree] at hmember
        cases hmember
      have hregister : s.world.register addr (.new s.elapsed s.sinceEpoch) net = .ok
          { s.world with
            topology := t'
            hosts := s.world.hosts.insert addr ⟨.new s.elapsed s.sinceEpoch, net⟩ } := by
        rw [World.register, if_neg (by rw [hfree]; decide), h]
        rfl
      exact ⟨_, Net.bind_eq_ok.mpr ⟨_, hregister, rfl⟩⟩

/-! ### A simulation -/

/-- A host that answers, over runtimes as fine as a duration. -/
def echoing : Given Nat Unit := ⟨echo, Duration.nanos⟩

def oneMilli : Config := ⟨.fromMillis 10000, .fromMillis 1, false⟩

/-- The software reads its clock. -/
def idleTurn : Turn Nat Unit := ⟨fun _ _ => Top.Topology.calm, [0], [], .running⟩

/-- A host and a client that asks in its first turn. -/
def askOps : List (SimOp Nat Unit) :=
  let ask : Turn Nat Unit := { idleTurn with
    acts := [.send Top.Topology.calm ⟨⟨.v4 1, 1000⟩, ⟨.v4 2, 80⟩, 7⟩] }
  [.host (.v4 2) 0 (), .client (.v4 1) 0 (),
    .step (fun a => if a = .v4 1 then ask else idleTurn) fun _ => Equiv.refl _,
    .step (fun _ => idleTurn) fun _ => Equiv.refl _,
    .step (fun _ => idleTurn) fun _ => Equiv.refl _]

def oneMilliLinks : Latency := ⟨.fromMillis 1, .fromMillis 1⟩

/-- The request is delivered in the second step, the answer in the third. -/
theorem ask_history : ∃ s ev, (Sim.new oneMilli oneMilliLinks (.fromMillis 0)).history echoing askOps
      = .ok (s, ev, [])
    ∧ s.steps = 4 ∧ (s.world.topology.links.get? (.v4 1, .v4 2)).isSome = true
    ∧ deliveredTo (.v4 2) (eventsOn (.v4 1, .v4 2) (onLinks ev))
      = [(⟨⟨.v4 1, 1000⟩, ⟨.v4 2, 80⟩, 7⟩, 2000000)]
    ∧ deliveredTo (.v4 1) (eventsOn (.v4 1, .v4 2) (onLinks ev))
      = [(⟨⟨.v4 2, 80⟩, ⟨.v4 1, 1000⟩, 8⟩, 3000000)] := ⟨_, _, rfl, rfl, rfl, rfl, rfl⟩

theorem simulation_conserves_messages_ask : ∃ s ev l,
    (Sim.new oneMilli oneMilliLinks (.fromMillis 0)).history echoing askOps = .ok (s, ev, [])
      ∧ s.world.topology.links.get? (.v4 1, .v4 2) = some l
      ∧ (enteredTo (.v4 2) (eventsOn (.v4 1, .v4 2) (onLinks ev))).Perm
        (droppedTo (.v4 2) (eventsOn (.v4 1, .v4 2) (onLinks ev)) ++ (l.link.sentTo (.v4 2)
          ++ (l.link.readyFor (.v4 2) ++ [⟨⟨.v4 1, 1000⟩, ⟨.v4 2, 80⟩, 7⟩]))) := by
  obtain ⟨s, ev, hs, -, hlink, hdel, -⟩ := ask_history
  obtain ⟨l, hl⟩ := Option.isSome_iff_exists.mp hlink
  have hall := (simulation_conserves_messages echoing oneMilli oneMilliLinks (.fromMillis 0) askOps hs).1
    (.v4 1, .v4 2) l hl (.v4 2)
  rw [hdel] at hall
  exact ⟨s, ev, l, hs, hl, hall.2.1⟩

/-- The two hosts are linked, and a third one can be added. -/
theorem network_is_complete_ask : ∃ s ev,
    (Sim.new oneMilli oneMilliLinks (.fromMillis 0)).history echoing askOps = .ok (s, ev, [])
      ∧ s.world.topology.links.contains (.v4 1, .v4 2) = true
      ∧ ∃ s', s.add .host (.v4 3) 0 () = .ok s' := by
  obtain ⟨s, ev, hs, h1, h2, hfree⟩ : ∃ s ev,
      (Sim.new oneMilli oneMilliLinks (.fromMillis 0)).history echoing askOps = .ok (s, ev, [])
        ∧ s.world.hosts.contains (.v4 1) = true ∧ s.world.hosts.contains (.v4 2) = true
        ∧ s.world.hosts.contains (.v4 3) = false := ⟨_, _, rfl, rfl, rfl, rfl⟩
  obtain ⟨hlinks, -, hadd⟩ :=
    network_is_complete echoing oneMilli oneMilliLinks (.fromMillis 0) askOps hs
  exact ⟨s, ev, hs, (hlinks _).mpr ⟨.v4 1, .v4 2, h1, h2, rfl⟩,
    (hadd .host (.v4 3) 0 ()).mpr hfree⟩

end Sim

end Turmoil.Simulation
