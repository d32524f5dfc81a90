/-
# The clocks of a simulation

Three kinds of clocks move in a step: the network's, each host's, and the simulation's own.  Each is
moved by itself, in another place, and the runtime of a host is replaced when it crashes.  They agree
after every history in which no software failed (`clocks_agree`): a host reads the simulation's time,
and the time of its turn, whenever it was registered and however often it crashed.

That no software failed is needed.  The step in which it does has ticked the links, and the hosts whose
turns came before, but not the others.  A deadline that is missed is no such failure: it is found at
the end of a step, with all clocks moved.

A step serves every host that runs.  So a message is handed over at the first step at whose begin it is
due, and not more than one tick late (`deliveries_on_time`), to a host that is running in every step.
The invariant is `Prompt`.  It is weakened by the tick at the begin of a step and restored by the turn
of the host, so it is stated with the time by which a message may be late.
-/
import Turmoil.Simulation.Runs

namespace Turmoil.Simulation

open Turmoil.Net (IpAddr SocketAddr)
open Turmoil.Top

variable {μ H : Type}

namespace Sim

variable {given : Given μ H} {s s' : Sim μ H}

/-! ## 1. The clocks agree -/

/-- All clocks show the steps taken.  The simulation counts from one and the clocks from zero, so each
is one tick behind. -/
structure Synced (given : Given μ H) (s : Sim μ H) : Prop where
  hosts : ∀ a n, s.world.simTime a = some n → n = s.elapsed.nanos
  elapsed : s.elapsed.nanos + s.config.tick.nanos = s.steps * s.config.tick.nanos
  network : s.world.topology.now + given.slept s.config.tick
    = s.steps * given.slept s.config.tick

theorem Synced.new (given : Given μ H) (config : Config) (latency : Latency) (sinceEpoch : Duration) :
    Synced given (Sim.new config latency sinceEpoch) where
  hosts a n h := by cases h
  elapsed := by
    show 0 * 10 ^ 6 + _ = 1 * _
    omega
  network := by
    show 0 + _ = 1 * _
    omega

/-- A step moves the three clocks by one tick each, if no software fails in it. -/
theorem Synced.stepped {order : Shuffle} {tr : List (TopEvent μ)} {ev : List (SimEvent μ)}
    {outcome : Except Failure Bool} (h : Synced given s) (hinv : Inv s tr)
    (hs : Stepped given order s s' ev outcome) (hsoft : outcome ≠ .error .software) :
    Synced given s' := by
  obtain ⟨helapsed, hsteps⟩ := hs.elapsed hsoft
  refine ⟨fun a n hn => ?_, ?_, ?_⟩
  · rw [hs.simTime hsoft] at hn
    obtain ⟨m, hm, rfl⟩ := Option.map_eq_some_iff.mp hn
    have hmember := hinv.members a
    rw [hm, Option.isSome_some] at hmember
    rw [if_pos hmember.symm, helapsed, h.hosts a m hm]
  · rw [hs.config.1, helapsed, hsteps, Nat.add_mul, Nat.one_mul, ← h.elapsed]
  · rw [hs.config.1, hs.now, hsteps, Nat.add_mul, Nat.one_mul, ← h.network]

/-- A host that is added starts at the time of the simulation; no other call moves a clock. -/
theorem Synced.apply {op : SimOp μ H} {tr : List (TopEvent μ)} {ev : List (SimEvent μ)}
    {failed : List Failure} (h : Synced given s) (hinv : Inv s tr)
    (hs : s.apply given op = .ok (s', ev, failed)) (hsoft : .software ∉ failed) :
    Synced given s' := by
  obtain ⟨ts, order, outcome, -, hstep, rfl⟩ | ⟨kind, addr, instant, hadd, -, -⟩
    | ⟨events, hsteady, -, -⟩ := apply_cases hs
  · refine h.stepped hinv (step_stepped hstep) ?_
    rintro rfl
    exact hsoft (List.mem_singleton_self _)
  · obtain ⟨f1, -, f3, f4⟩ := hadd.same
    obtain ⟨hnow, -, -⟩ := registerAll hadd.topology hinv.links
      (.new s.world.topology.now)
    refine ⟨fun a n hn => ?_, by rw [f1, f3, f4]; exact h.elapsed,
      by rw [f1, f4, hnow]; exact h.network⟩
    rw [hadd.simTime] at hn
    rw [f3]
    split at hn
    · cases hn
      rfl
    · exact h.hosts a n hn
  · obtain ⟨f1, -, f3, f4⟩ := hsteady.same
    refine ⟨fun a n hn => ?_, by rw [f1, f3, f4]; exact h.elapsed,
      by rw [f1, f4, hsteady.acted.now]; exact h.network⟩
    rw [hsteady.acted.simTime] at hn
    rw [f3]
    exact h.hosts a n hn

theorem Synced.history : ∀ {ops : List (SimOp μ H)} {s s' : Sim μ H} {tr : List (TopEvent μ)}
    {ev : List (SimEvent μ)} {failed : List Failure}, Synced given s → Inv s tr →
      s.history given ops = .ok (s', ev, failed) → .software ∉ failed → Synced given s' := by
  intro ops
  induction ops with
  | nil =>
    intro s s' tr ev failed h _ hs _
    cases hs
    exact h
  | cons op ops ih =>
    intro s s' tr ev failed h hinv hs hsoft
    obtain ⟨⟨s₁, first, failed₁⟩, h₁, hs⟩ := Net.bind_eq_ok.mp hs
    obtain ⟨⟨s₂, rest, failed₂⟩, h₂, hs⟩ := Net.bind_eq_ok.mp hs
    cases hs
    obtain ⟨hsoft₁, hsoft₂⟩ := not_or.mp (mt List.mem_append.mpr hsoft)
    exact ih (h.apply hinv h₁ hsoft₁) (hinv.apply h₁) h₂ hsoft₂

/-- A step leaves the configuration as it is, and so does every other call. -/
theorem config_apply {op : SimOp μ H} {ev : List (SimEvent μ)} {failed : List Failure}
    (hs : s.apply given op = .ok (s', ev, failed)) : s'.config = s.config := by
  obtain ⟨ts, order, outcome, -, hstep, -⟩ | ⟨kind, addr, instant, hadd, -, -⟩
    | ⟨events, hsteady, -, -⟩ := apply_cases hs
  · exact (step_stepped hstep).config.1
  · exact hadd.same.1
  · exact hsteady.same.1

/-- So the tick is the same for the whole history, and the clocks can be compared in ticks. -/
theorem config_history : ∀ {ops : List (SimOp μ H)} {s s' : Sim μ H} {ev : List (SimEvent μ)}
    {failed : List Failure}, s.history given ops = .ok (s', ev, failed) → s'.config = s.config := by
  intro ops
  induction ops with
  | nil =>
    intro s s' ev failed hs
    cases hs
    rfl
  | cons op ops ih =>
    intro s s' ev failed hs
    obtain ⟨⟨s₁, first, failed₁⟩, h₁, hs⟩ := Net.bind_eq_ok.mp hs
    obtain ⟨⟨s₂, rest, failed₂⟩, h₂, hs⟩ := Net.bind_eq_ok.mp hs
    cases hs
    exact (ih h₂).trans (config_apply h₁)

/-- **The clocks agree.**  After every history in which no software failed, the simulation's clock and
the network's show one tick for each step taken, every link has the network's time, and every host's
time since the start of the simulation is the simulation's.  In the next step, each reading of each
host is that time and what has passed of its turn. -/
theorem clocks_agree (given : Given μ H) (config : Config) (latency : Latency) (sinceEpoch : Duration)
    (ops : List (SimOp μ H)) {s : Sim μ H} {ev : List (SimEvent μ)} {failed : List Failure}
    (hs : (Sim.new config latency sinceEpoch).history given ops = .ok (s, ev, failed))
    (hsoft : .software ∉ failed) :
    s.elapsed.nanos + config.tick.nanos = s.steps * config.tick.nanos
      ∧ s.world.topology.now + given.slept config.tick = s.steps * given.slept config.tick
      ∧ (∀ p l, s.world.topology.links.get? p = some l → l.link.now = s.world.topology.now)
      ∧ (∀ a n, s.world.simTime a = some n → n = s.elapsed.nanos)
      ∧ ∀ ts order s' ev outcome, s.step given ts order = .ok (s', ev, outcome) →
        ∀ a offset value, .clock a offset value ∈ ev → value.nanos = s.elapsed.nanos + offset := by
  have hinv := (Inv.new config latency sinceEpoch).history hs
  have hsync := (Synced.new given config latency sinceEpoch).history (Inv.new ..) hs hsoft
  have hconfig : s.config = config := config_history hs
  have helapsed := hsync.elapsed
  have hnetwork := hsync.network
  rw [hconfig] at helapsed hnetwork
  refine ⟨helapsed, hnetwork, fun p l hl => (hinv.links.links p l hl).now, hsync.hosts, ?_⟩
  intro ts order s' ev outcome hstep a offset value hmem
  obtain ⟨htime, hle⟩ := (step_stepped hstep).clocks a offset value hmem
  have := hsync.hosts a _ htime
  omega

theorem clocks_agree_ask : ∃ s ev,
    (Sim.new oneMilli oneMilliLinks (.fromMillis 0)).history echoing askOps = .ok (s, ev, [])
      ∧ s.elapsed.nanos + 1000000 = s.steps * 1000000 := by
  obtain ⟨s, ev, hs, -⟩ := ask_history
  have hnone : Failure.software ∉ ([] : List Failure) := List.not_mem_nil
  exact ⟨s, ev, hs,
    (clocks_agree echoing oneMilli oneMilliLinks (.fromMillis 0) askOps hs hnone).1⟩

/-! ## 2. Messages on time -/

/-- The software of the host runs in every step, from its registration on.  The host may be crashed all
the same, if it is bounced before the next step. -/
def Attends (given : Given μ H) (addr : IpAddr) : Sim μ H → List (SimOp μ H) → Prop
  | _, [] => True
  | s, op :: ops =>
    (∀ ts order, op = .step ts order → s.rts.contains addr = true → addr ∈ s.withSoftware true)
      ∧ ∀ s' ev failed, s.apply given op = .ok (s', ev, failed) → Attends given addr s' ops

/-- A link that ends at the host, with its messages on time.  `slack` is how long the oldest of them
may have waited: nothing between two steps, and up to one tick within one. -/
def Prompt (late slack : Nat) (addr : IpAddr) (now : Nat) (p : Pair) (l : Link μ)
    (tr : List (Event μ)) : Prop :=
  Balanced now p l tr ∧ (p.1 = addr ∨ p.2 = addr → OnTime late slack 0 addr l tr)

section
variable {receive : H → Envelope μ → H × Option μ} {late slack now now' : Nat} {addr : IpAddr}
  {p : Pair} {l l' : Link μ} {tr ev : List (Event μ)} {ops : List (LinkOp μ H)}

theorem Prompt.new (late : Nat) (addr : IpAddr) (now : Nat) (p : Pair) :
    Prompt (μ := μ) late 0 addr now p (Link.new now) [] :=
  ⟨.new now p, fun _ => ⟨fun _ hs => absurd hs List.not_mem_nil, .nil⟩⟩

/-- Between a tick and the next no time passes, so nothing that is done then makes a message late. -/
theorem Prompt.stills (h : Prompt late slack addr now p l tr) (hslack : slack ≤ late)
    (hstill : Stills p ops) (hrun : l.run receive ops = some (l', ev)) :
    Prompt late slack addr now p l' (tr ++ ev) :=
  ⟨h.1.stills hstill hrun, fun hend => (h.2 hend).run hslack h.1.ledger h.1.routed hstill hrun⟩

/-- With the tick of a step, messages become due that are not handed over yet. -/
theorem Prompt.tick (h : Prompt late 0 addr now p l tr) (hnow : now' = now + late)
    (hrun : l.run receive [.tick now'] = some (l', ev)) : Prompt late late addr now' p l' (tr ++ ev) := by
  refine ⟨h.1.tick (by omega) hrun, fun hend => ?_⟩
  obtain ⟨⟨l₁, first⟩, h₁, hrun⟩ := Option.bind_eq_some_iff.mp hrun
  cases hrun
  rw [List.append_nil]
  exact (h.2 hend).tick (by rw [h.1.now, hnow]) h₁

/-- When the host is served it takes all that is ready, and so there is nothing late any more. -/
theorem Prompt.serves (h : Prompt late late addr now p l tr) (hserves : Topology.Serves addr p ops)
    (hrun : l.run receive ops = some (l', ev)) : Prompt late 0 addr now p l' (tr ++ ev) := by
  refine ⟨h.1.stills hserves.stills hrun, fun hend => ?_⟩
  unfold Topology.Serves at hserves
  rw [if_pos hend] at hserves
  obtain ⟨draw, host, rfl⟩ := hserves
  obtain ⟨⟨l₁, first⟩, h₁, hrun⟩ := Option.bind_eq_some_iff.mp hrun
  cases hrun
  rw [List.append_nil]
  exact (h.2 hend).serve h.1.ledger (Nat.le_refl _) h₁

/-- The host at `addr` is served between a tick and the next.  Its turn is somewhere in the order, so
other turns come before and after it. -/
theorem Served.every {t t' : Topology μ} {tr ev : List (TopEvent μ)}
    (h : Served receive addr t t' ev) (ht : t.Every (Prompt late late addr now) tr) :
    t'.Every (Prompt late 0 addr now) (tr ++ ev) := by
  obtain ⟨t₁, t₂, ev₁, ev₂, ev₃, hbefore, hserves, hafter, rfl⟩ := h
  have h₁ := hbefore.every ht fun hok hp hrun => hp.stills (Nat.le_refl _) hok hrun
  have h₂ := hserves.every h₁ fun hok hp hrun => hp.serves hok hrun
  have h₃ := hafter.every h₂ fun hok hp hrun => hp.stills (Nat.zero_le _) hok hrun
  rwa [← List.append_assoc, ← List.append_assoc]

end

/-- A link ends at hosts.  So to an address at which no host is registered there is nothing to be late. -/
theorem Inv.ends {tr : List (TopEvent μ)} (h : Inv s tr) {p : Pair}
    (hp : s.world.topology.links.contains p = true) {addr : IpAddr} (hend : p.1 = addr ∨ p.2 = addr) :
    s.rts.contains addr = true := by
  obtain ⟨a, b, ha, hb, hpair⟩ := (h.network p).mp hp
  rw [← h.members]
  obtain ⟨h1, h2⟩ | ⟨h1, h2⟩ := pair_ends hpair
  · obtain rfl | rfl := hend
    · rw [h1]; exact ha
    · rw [h2]; exact hb
  · obtain rfl | rfl := hend
    · rw [h1]; exact hb
    · rw [h2]; exact ha

/-- **One call** keeps the messages for a host that attends on time. -/
theorem prompt_apply {op : SimOp μ H} {addr : IpAddr} {tr : List (TopEvent μ)}
    {ev : List (SimEvent μ)} {failed : List Failure} (hinv : Inv s tr)
    (h : s.world.topology.Every
      (Prompt (given.slept s.config.tick) 0 addr s.world.topology.now) tr)
    (hattend : ∀ ts order, op = .step ts order → s.rts.contains addr = true →
      addr ∈ s.withSoftware true)
    (hs : s.apply given op = .ok (s', ev, failed)) (hsoft : .software ∉ failed) :
    s'.world.topology.Every
      (Prompt (given.slept s.config.tick) 0 addr s'.world.topology.now) (tr ++ onLinks ev) := by
  obtain ⟨ts, order, outcome, rfl, hstep, rfl⟩ | ⟨kind, addr', instant, hadd, rfl, -⟩
    | ⟨events, hsteady, rfl, -⟩ := apply_cases hs
  · have hstepped := step_stepped hstep
    have hne : outcome ≠ .error .software := by
      rintro rfl
      exact hsoft (List.mem_singleton_self _)
    obtain ⟨moved, hev, hst, hserved⟩ := hstepped.links
    have htick := @Top.Topology.tickBy_steers _ _ given.receive s.world.topology (given.slept s.config.tick)
    have hticked := htick.every (Q := Prompt (given.slept s.config.tick)
      (given.slept s.config.tick) addr s'.world.topology.now) h fun hok hp hrun => by
        rw [hok, ← hstepped.now] at hrun
        exact hp.tick hstepped.now hrun
    rw [hev, ← List.append_assoc]
    by_cases haddr : s.rts.contains addr = true
    · exact (hserved hne addr (hattend ts order rfl haddr)).every hticked
    · -- no link ends at a host that is not there
      have hall := hst.every hticked fun hok hp hrun => hp.stills (Nat.le_refl _) hok hrun
      refine ⟨fun p l hl => ⟨(hall.links p l hl).1, fun hend => absurd ?_ haddr⟩, hall.others⟩
      have hcontains : s'.world.topology.links.contains p = true := IndexMap.contains_iff.mpr ⟨l, hl⟩
      rw [hst.contains, htick.contains] at hcontains
      exact hinv.ends hcontains hend
  · obtain ⟨hnow, hevery, -⟩ := registerAll hadd.topology h fun p => .new _ addr _ p
    rw [hnow, show onLinks ([] : List (SimEvent μ)) = [] from rfl, List.append_nil]
    exact hevery
  · rw [onLinks_map, hsteady.acted.now]
    exact hsteady.acted.steers.every h fun hok hp hrun => hp.stills (Nat.zero_le _) hok hrun

/-- **Every history** in which no software fails and the host attends. -/
theorem prompt_history {addr : IpAddr} : ∀ {ops : List (SimOp μ H)} {s s' : Sim μ H}
    {tr : List (TopEvent μ)} {ev : List (SimEvent μ)} {failed : List Failure}, Inv s tr →
      s.world.topology.Every
        (Prompt (given.slept s.config.tick) 0 addr s.world.topology.now) tr →
      Attends given addr s ops → s.history given ops = .ok (s', ev, failed) →
      .software ∉ failed →
      s'.world.topology.Every
        (Prompt (given.slept s.config.tick) 0 addr s'.world.topology.now) (tr ++ onLinks ev) := by
  intro ops
  induction ops with
  | nil =>
    intro s s' tr ev failed _ h _ hs _
    cases hs
    rw [show onLinks ([] : List (SimEvent μ)) = [] from rfl, List.append_nil]
    exact h
  | cons op ops ih =>
    intro s s' tr ev failed hinv h hattend hs hsoft
    obtain ⟨⟨s₁, first, failed₁⟩, h₁, hs⟩ := Net.bind_eq_ok.mp hs
    obtain ⟨⟨s₂, rest, failed₂⟩, h₂, hs⟩ := Net.bind_eq_ok.mp hs
    cases hs
    obtain ⟨hsoft₁, hsoft₂⟩ := not_or.mp (mt List.mem_append.mpr hsoft)
    have hconfig := config_apply h₁
    have hprompt := prompt_apply hinv h hattend.1 h₁ hsoft₁
    rw [← hconfig] at hprompt
    have hall := ih (hinv.apply h₁) hprompt (hattend.2 _ _ _ h₁) h₂ hsoft₂
    rwa [hconfig, List.append_assoc, ← onLinks_append] at hall

/-- **Messages are delivered on time.**  To a host whose software runs in every step, over every link:
what is handed over is what became ready, in that order, not before it was due and not more than one
tick after it was; and what waits between two steps is due only now. -/
theorem deliveries_on_time (given : Given μ H) (config : Config) (latency : Latency)
    (sinceEpoch : Duration) (addr : IpAddr) (ops : List (SimOp μ H)) {s : Sim μ H}
    {ev : List (SimEvent μ)} {failed : List Failure}
    (hs : (Sim.new config latency sinceEpoch).history given ops = .ok (s, ev, failed))
    (hsoft : .software ∉ failed) (hattend : Attends given addr (Sim.new config latency sinceEpoch) ops) :
    ∀ p l, s.world.topology.links.get? p = some l → p.1 = addr ∨ p.2 = addr →
      List.Forall₂ (fun r d => r.1 = d.1 ∧ r.2 ≤ d.2 ∧ d.2 ≤ r.2 + given.slept config.tick)
        ((readyTo addr (eventsOn p (onLinks ev))).take
          (deliveredTo addr (eventsOn p (onLinks ev))).length)
        (deliveredTo addr (eventsOn p (onLinks ev)))
      ∧ ∀ r ∈ (readyTo addr (eventsOn p (onLinks ev))).drop
          (deliveredTo addr (eventsOn p (onLinks ev))).length, r.2 = l.link.now := by
  have hstart : (Sim.new config latency sinceEpoch : Sim μ H).world.topology.Every
      (Prompt (given.slept config.tick) 0 addr 0) [] := ⟨(fun _ _ h => by cases h), fun _ _ => rfl⟩
  have hall := prompt_history (Inv.new config latency sinceEpoch) hstart hattend hs hsoft
  intro p l hl hend
  obtain ⟨hbalanced, htime⟩ := hall.links p l hl
  have hpunctual := hbalanced.ledger.punctual_eq addr
  have htimely := (htime hend).timely
  have hdue := hbalanced.ledger.due addr
  rw [List.nil_append] at hpunctual htimely hdue
  refine ⟨?_, fun r hr => ?_⟩
  · have hlate := htimely.delivered
    rw [List.forall₂_iff_get] at hpunctual hlate ⊢
    refine ⟨hpunctual.1, fun i h1 h2 => ?_⟩
    obtain ⟨heq, hle⟩ := hpunctual.2 i h1 h2
    exact ⟨heq, hle, hlate.2 i h1 h2⟩
  · have hwait := htimely.waiting r hr
    have := hdue r (List.mem_of_mem_drop hr)
    omega

/-- The host that answers is registered first, and its software does not end. -/
theorem attends_ask : Attends echoing (.v4 2) (Sim.new oneMilli oneMilliLinks (.fromMillis 0)) askOps := by
  refine ⟨(fun _ _ h => by cases h), fun s₁ _ _ h₁ => ?_⟩
  cases h₁
  refine ⟨(fun _ _ h => by cases h), fun s₂ _ _ h₂ => ?_⟩
  cases h₂
  refine ⟨(fun _ _ _ _ => by decide), fun s₃ _ _ h₃ => ?_⟩
  cases h₃
  refine ⟨(fun _ _ _ _ => by decide), fun s₄ _ _ h₄ => ?_⟩
  cases h₄
  exact ⟨(fun _ _ _ _ => by decide), fun _ _ _ _ => trivial⟩

theorem deliveries_on_time_ask : ∃ s ev,
    (Sim.new oneMilli oneMilliLinks (.fromMillis 0)).history echoing askOps = .ok (s, ev, [])
      ∧ List.Forall₂ (fun r d => r.1 = d.1 ∧ r.2 ≤ d.2 ∧ d.2 ≤ r.2 + 1000000)
        ((readyTo (.v4 2) (eventsOn (.v4 1, .v4 2) (onLinks ev))).take 1)
        [(⟨⟨.v4 1, 1000⟩, ⟨.v4 2, 80⟩, 7⟩, 2000000)] := by
  obtain ⟨s, ev, hs, -, hlink, hdel, -⟩ := ask_history
  obtain ⟨l, hl⟩ := Option.isSome_iff_exists.mp hlink
  have hnone : Failure.software ∉ ([] : List Failure) := List.not_mem_nil
  have hall := (deliveries_on_time echoing oneMilli oneMilliLinks (.fromMillis 0) (.v4 2) askOps hs
    hnone attends_ask (.v4 1, .v4 2) l hl (.inr rfl)).1
  rw [hdel] at hall
  exact ⟨s, ev, hs, hall⟩

end Sim

end Turmoil.Simulation
