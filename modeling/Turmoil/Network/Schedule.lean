/-
# The schedule of the net

The scheduler of a net is the one of `Net.Scheduler`, which is given the packets of every tick: here
they are what the hosts send, and rules come and go between the ticks.  Whatever the rules were, a rule
that recites their verdicts would have led to the same run of the scheduler.

This is what carries the theorem over.  `Net.Scheduler` proves that a scheduler with one fixed list of
rules keeps its queue sorted and gives every packet one fate.  In a net the rules change while it runs,
and what the hosts send depends on what was delivered before.  But a run that has happened has its
packets and its verdicts, and these can be written down: the packets are the batches of the turns, the
verdicts a script, and the script is a rule.  So the scheduler's part of any run of the net is a run of
a scheduler with one rule (`run_recite`).
-/
import Turmoil.Network.Authentic

namespace Turmoil.Network

open Turmoil.Net

/-! ## 1. Verdicts that are recited -/

/-- A rule that says what it was told to say. -/
def recite : List Verdict → Packet → Verdict × List Verdict
  | [], _ => (.pass, [])
  | v :: vs, _ => (v, vs)

/-- The rule that recites is the only one, so what it says is the verdict. -/
theorem evaluate_recite (v : Verdict) (vs : List Verdict) (pkt : Packet) :
    evaluate recite [v :: vs] pkt = (v, [vs]) := by
  cases v <;> rfl

/-- The verdicts on the packets of a tick. -/
def verdicts (sent : List (Packet × Verdict × Fate Packet)) : List Verdict := sent.map fun x => x.2.1

namespace Net

variable {ρ : Type} {onPacket : ρ → Packet → Verdict × ρ} {n n' : Net ρ}

/-- What the scheduler does with a packet depends on the verdict, and on nothing else of the net. -/
theorem dispose_scheduler {pkt : Packet} {v : Verdict} {fate : Fate Packet}
    (h : n.dispose onPacket pkt = .ok (n', v, fate)) : n.scheduler.dispose pkt v = .ok (n'.scheduler, fate) := by
  obtain ⟨⟨s, fate₁⟩, hs, h⟩ := bind_eq_ok.mp h
  have hs' := hs
  unfold Scheduler.dispose at hs
  split at hs
  · cases hs
    cases h
    exact hs'
  · cases hs
    obtain ⟨f, -, h⟩ := bind_eq_ok.mp h
    cases h
    exact hs'
  · split at hs
    · cases hs
      obtain ⟨f, -, h⟩ := bind_eq_ok.mp h
      cases h
      exact hs'
    · obtain ⟨⟨s₁, entry⟩, -, hs⟩ := bind_eq_ok.mp hs
      cases hs
      cases h
      exact hs'

/-- The packets of a turn, with their verdicts read from a script.  What is left of the script (`more`)
is for the turns to come. -/
theorem disposeAll_recite (more : List Verdict) : ∀ {pkts : List Packet} {n n' : Net ρ}
    {sent : List (Packet × Verdict × Fate Packet)}, n.disposeAll onPacket pkts = .ok (n', sent) →
    Scheduler.routeAll recite n.scheduler [verdicts sent ++ more] pkts
      = .ok (n'.scheduler, [more], sent) := by
  intro pkts
  induction pkts with
  | nil =>
    intro n n' sent h
    cases h
    rfl
  | cons pkt pkts ih =>
    intro n n' sent h
    obtain ⟨⟨n₁, v, fate⟩, h₁, h⟩ := bind_eq_ok.mp h
    obtain ⟨⟨n₂, sent₂⟩, h₂, h⟩ := bind_eq_ok.mp h
    cases h
    rw [verdicts, List.map_cons, List.cons_append, Scheduler.routeAll, evaluate_recite]
    exact bind_eq_ok.mpr ⟨_, dispose_scheduler h₁, bind_eq_ok.mpr ⟨_, ih h₂, rfl⟩⟩

/-- A turn of the scheduler is one of a scheduler that is given what the hosts send. -/
theorem tick_recite {dt fuel : Nat} {r : TickRecord Packet} (h : n.tick onPacket dt fuel = .ok (n', r)) :
    ∃ batch, ∀ more, n.scheduler.tick recite [verdicts r.sent ++ more] dt batch
      = .ok (n'.scheduler, [more], r) := by
  obtain ⟨now, hnow, h⟩ := bind_eq_ok.mp h
  obtain ⟨f₁, -, h⟩ := bind_eq_ok.mp h
  obtain ⟨⟨f₂, batch⟩, -, h⟩ := bind_eq_ok.mp h
  obtain ⟨⟨n₃, sent⟩, h₃, h⟩ := bind_eq_ok.mp h
  cases h
  refine ⟨batch, fun more => ?_⟩
  exact bind_eq_ok.mpr ⟨now, hnow, bind_eq_ok.mpr ⟨_, disposeAll_recite more h₃, rfl⟩⟩

/-! ## 2. Every run -/

/-- The turns of the scheduler in a run. -/
def ticksIn : List Event → List (TickRecord Packet)
  | [] => []
  | .called _ :: events => ticksIn events
  | .ticked r :: events => r :: ticksIn events

theorem ticksIn_append (events' : List Event) :
    ∀ events, ticksIn (events ++ events') = ticksIn events ++ ticksIn events'
  | [] => rfl
  | .called _ :: events => ticksIn_append events' events
  | .ticked r :: events => by
    rw [List.cons_append, ticksIn, ticksIn, ticksIn_append events' events, List.cons_append]

/-- How far each turn takes the time. -/
def steps : List (Op ρ) → List Nat
  | [] => []
  | .tick dt _ :: ops => dt :: steps ops
  | _ :: ops => steps ops

/-- **One step** is a turn of the scheduler or leaves it alone.  A rule that is installed or
uninstalled is of the second kind: what it changes is the script of the turns after it. -/
theorem step_recite {op : Op ρ} {events : List Event} (h : n.step onPacket op = .ok (n', events)) :
    (∃ dt fuel r batch, op = .tick dt fuel ∧ events = [.ticked r] ∧
        ∀ more, n.scheduler.tick recite [verdicts r.sent ++ more] dt batch = .ok (n'.scheduler, [more], r))
      ∨ ((∀ ops, steps (op :: ops) = steps ops) ∧ ticksIn events = []
        ∧ n'.scheduler = n.scheduler) := by
  cases op with
  | setCurrent id =>
    cases h
    exact .inr ⟨fun _ => rfl, rfl, rfl⟩
  | call c =>
    obtain ⟨id, -, h⟩ := bind_eq_ok.mp h
    obtain ⟨k, -, h⟩ := bind_eq_ok.mp h
    obtain ⟨⟨k', r⟩, -, h⟩ := bind_eq_ok.mp h
    cases h
    exact .inr ⟨fun _ => rfl, rfl, rfl⟩
  | rule r =>
    obtain ⟨n₁, h₁, h⟩ := bind_eq_ok.mp h
    cases h
    unfold installRule at h₁
    split at h₁
    · cases h₁
      exact .inr ⟨fun _ => rfl, rfl, rfl⟩
    · cases h₁
  | uninstall id =>
    cases h
    exact .inr ⟨fun _ => rfl, rfl, rfl⟩
  | tick dt fuel =>
    obtain ⟨⟨n₁, r⟩, h₁, h⟩ := bind_eq_ok.mp h
    cases h
    obtain ⟨batch, hbatch⟩ := tick_recite h₁
    exact .inl ⟨dt, fuel, r, batch, rfl, rfl, hbatch⟩

/-- **The scheduler's part of a run** is a run of the scheduler. -/
theorem run_recite : ∀ {ops : List (Op ρ)} {n n' : Net ρ} {events : List Event},
    n.run onPacket ops = .ok (n', events) → ∃ ticks script, ticks.map Prod.fst = steps ops
      ∧ ∀ more, Scheduler.run recite n.scheduler [script ++ more] ticks
        = .ok (n'.scheduler, [more], ticksIn events) := by
  intro ops
  induction ops with
  | nil =>
    intro n n' events h
    cases h
    exact ⟨[], [], rfl, fun more => rfl⟩
  | cons op ops ih =>
    intro n n' events h
    obtain ⟨⟨n₁, first⟩, h₁, h⟩ := bind_eq_ok.mp h
    obtain ⟨⟨n₂, rest⟩, h₂, h⟩ := bind_eq_ok.mp h
    cases h
    obtain ⟨ticks, script, hticks, hrun⟩ := ih h₂
    rcases step_recite h₁ with ⟨dt, fuel, r, batch, rfl, rfl, htick⟩ | ⟨hsteps, hnone, hs⟩
    · refine ⟨(dt, batch) :: ticks, verdicts r.sent ++ script, ?_, fun more => ?_⟩
      · rw [List.map_cons, hticks, steps]
      · rw [List.append_assoc]
        exact bind_eq_ok.mpr ⟨_, htick (script ++ more), bind_eq_ok.mpr ⟨_, hrun more, rfl⟩⟩
    · refine ⟨ticks, script, by rw [hsteps, hticks], fun more => ?_⟩
      rw [ticksIn_append, hnone, ← hs]
      exact hrun more

/-! ## 3. What the rules see -/

/-- What leaves the hosts is not for loopback. -/
theorem egressHosts_outside {fuel : Nat} : ∀ {ids : List HostId} {f f' : Fabric} {out : List Packet},
    f.Sound → Fabric.egressHosts fuel ids f = .ok (f', out) → ∀ p ∈ out, p.dst.isLoopback = false := by
  intro ids
  induction ids with
  | nil =>
    intro f f' out _ h
    cases h
    exact fun p hp => absurd hp List.not_mem_nil
  | cons id ids ih =>
    intro f f' out hf h
    obtain ⟨k, hk, h⟩ := bind_eq_ok.mp h
    obtain ⟨⟨k', out₁⟩, hk', h⟩ := bind_eq_ok.mp h
    obtain ⟨⟨f₂, out₂⟩, h₂, h⟩ := bind_eq_ok.mp h
    cases h
    obtain ⟨host, hhost, rfl⟩ := Fabric.kernel_eq_ok hk
    have hl := egress_leaves (f.owner id) id (hf.bound hhost)
      (fun ip hip => (hf.owns hhost ip).mp hip) hk'
    intro p hp
    rcases List.mem_append.mp hp with hp | hp
    · have hlocal := hl.outside p hp
      rw [Kernel.isLocal, Bool.or_eq_false_iff] at hlocal
      exact hlocal.1
    · exact ih (Fabric.put_sound hf hhost hl.addresses hl.bound) h₂ p hp

theorem disposeAll_sent : ∀ {pkts : List Packet} {n n' : Net ρ}
    {sent : List (Packet × Verdict × Fate Packet)}, n.disposeAll onPacket pkts = .ok (n', sent) →
    sent.map Prod.fst = pkts := by
  intro pkts
  induction pkts with
  | nil =>
    intro n n' sent h
    cases h
    rfl
  | cons pkt pkts ih =>
    intro n n' sent h
    obtain ⟨⟨n₁, v, fate⟩, -, h⟩ := bind_eq_ok.mp h
    obtain ⟨⟨n₂, sent₂⟩, h₂, h⟩ := bind_eq_ok.mp h
    cases h
    rw [List.map_cons, ih h₂]

/-- The rules are asked about packets between hosts only. -/
theorem tick_outside (hn : n.fabric.Sound) {dt fuel : Nat} {r : TickRecord Packet}
    (h : n.tick onPacket dt fuel = .ok (n', r)) : ∀ x ∈ r.sent, x.1.dst.isLoopback = false := by
  obtain ⟨now, -, h⟩ := bind_eq_ok.mp h
  obtain ⟨f₁, h₁, h⟩ := bind_eq_ok.mp h
  obtain ⟨⟨f₂, batch⟩, h₂, h⟩ := bind_eq_ok.mp h
  obtain ⟨⟨n₃, sent⟩, h₃, h⟩ := bind_eq_ok.mp h
  cases h
  intro x hx
  refine egressHosts_outside (deliverAll_moves hn h₁).sound h₂ x.1 ?_
  rw [← disposeAll_sent h₃]
  exact List.mem_map_of_mem hx

theorem run_outside : ∀ {ops : List (Op ρ)} {n n' : Net ρ} {events : List Event}, n.fabric.Sound →
    n.run onPacket ops = .ok (n', events) →
    ∀ r ∈ ticksIn events, ∀ x ∈ r.sent, x.1.dst.isLoopback = false := by
  intro ops
  induction ops with
  | nil =>
    intro n n' events _ h
    cases h
    exact fun r hr => absurd hr List.not_mem_nil
  | cons op ops ih =>
    intro n n' events hn h
    obtain ⟨⟨n₁, first⟩, h₁, h⟩ := bind_eq_ok.mp h
    obtain ⟨⟨n₂, rest⟩, h₂, h⟩ := bind_eq_ok.mp h
    cases h
    intro r hr
    rw [ticksIn_append] at hr
    rcases List.mem_append.mp hr with hr | hr
    · rcases step_recite h₁ with ⟨dt, fuel, r', batch, rfl, rfl, -⟩ | ⟨-, hnone, -⟩
      · obtain ⟨⟨n₃, r₃⟩, h₃, h₁⟩ := bind_eq_ok.mp h₁
        cases h₁
        rw [List.mem_singleton.mp hr]
        exact tick_outside hn h₃
      · rw [hnone] at hr
        cases hr
    · exact ih (step_moves hn h₁).1.sound h₂ r hr

theorem times_eq : ∀ (ticks : List (Nat × List Packet)) (now : Nat), Scheduler.times now ticks
    = Scheduler.times now ((ticks.map Prod.fst).map fun dt => (dt, ([] : List Packet)))
  | [], _ => rfl
  | (dt, _) :: ticks, now => congrArg ((now + dt) :: ·) (times_eq ticks (now + dt))

theorem fits_all {ticks : List (Nat × List Packet)} {rs : List (TickRecord Packet)}
    (h : List.Forall₂ (fun t r => r.sent.map Prod.fst = t.2
      ∧ ∀ x ∈ r.sent, Fate.Fits r.now x.1 x.2.1 x.2.2) ticks rs) :
    ∀ r ∈ rs, ∀ x ∈ r.sent, Fate.Fits r.now x.1 x.2.1 x.2.2 := by
  induction h with
  | nil => exact fun r hr => absurd hr List.not_mem_nil
  | cons hhead _ ih =>
    intro r hr
    rcases List.mem_cons.mp hr with rfl | hr
    · exact hhead.2
    · exact ih r hr

/-- **The net keeps its schedule.**  In every run of a net, whatever its hosts call and whenever rules
are installed and uninstalled:

* the turns of the scheduler take place at the sums of their steps, and the queue is strictly sorted;
* every packet that leaves a host has the one fate its verdict asks for, and none is for loopback;
* a packet that is scheduled has one entry, and the numbers of the entries increase in the order the
  packets left their hosts;
* an entry is handed over in the first later turn whose time is its deadline or later, and in no other;
  what is handed over is strictly sorted, and was scheduled before. -/
theorem schedule_is_kept (cfg : KernelConfig) (hosts : List (List IpAddr)) (ops : List (Op ρ))
    {events : List Event} (hn : (withConfig cfg).addHosts hosts = .ok n)
    (hr : n.run onPacket ops = .ok (n', events)) :
    n'.scheduler.pending.Pairwise Scheduled.Before
      ∧ (ticksIn events).map TickRecord.now
        = Scheduler.times 0 ((steps ops).map fun dt => (dt, ([] : List Packet)))
      ∧ (∀ r ∈ ticksIn events, ∀ x ∈ r.sent,
        Fate.Fits r.now x.1 x.2.1 x.2.2 ∧ x.1.dst.isLoopback = false)
      ∧ ((ticksIn events).flatMap TickRecord.scheduled).Pairwise (fun a b => a.seq < b.seq)
      ∧ (∀ (i j : Nat) (ri rj : TickRecord Packet), (ticksIn events)[i]? = some ri →
        (ticksIn events)[j]? = some rj → ∀ e ∈ ri.scheduled, (e ∈ rj.due ↔ i < j
          ∧ e.deliverAt ≤ rj.now
          ∧ ∀ k rk, i < k → k < j → (ticksIn events)[k]? = some rk → rk.now < e.deliverAt))
      ∧ ∀ (j : Nat) (rj : TickRecord Packet), (ticksIn events)[j]? = some rj →
        rj.due.Pairwise Scheduled.Before
          ∧ ∀ e ∈ rj.due, ∃ i ri, i < j ∧ (ticksIn events)[i]? = some ri ∧ e ∈ ri.scheduled := by
  have hfresh := addHosts_fresh hn
  have hout := run_outside hfresh.sound hr
  obtain ⟨ticks, script, hticks, hrun⟩ := run_recite hr
  have hrun := hrun []
  rw [hfresh.scheduler] at hrun
  obtain ⟨hord, htimes, hall, hnum, -, hdue⟩ := Scheduler.run_ordered Scheduler.new_ordered hrun
  refine ⟨hord.sorted, ?_, fun r hr x hx => ⟨fits_all hall r hr x hx, hout r hr x hx⟩, hnum,
    fun i j ri rj hi hj e he => Scheduler.run_scheduled Scheduler.new_ordered hrun hi hj he,
    fun j rj hj => ⟨hdue rj (List.mem_of_getElem? hj), fun e he => ?_⟩⟩
  · rw [htimes, times_eq, hticks]
    rfl
  · rcases Scheduler.run_due Scheduler.new_ordered hrun hj he with hmem | hmem
    · cases hmem
    · exact hmem

/-- One of two packets is delayed by two units, and handed over in the second turn. -/
theorem schedule_is_kept_overtaken : ∃ n n' events,
    (withConfig .default : Net Unit).addHosts overtakenHosts = .ok n
      ∧ n.run delayShort overtakenOps = .ok (n', events)
      ∧ (ticksIn events).map (fun r => (r.now, r.due.map Scheduled.deliverAt, r.sent.length))
        = [(1, [], 2), (3, [3], 0)]
      ∧ (ticksIn events).map TickRecord.now
        = Scheduler.times 0 ((steps overtakenOps).map fun dt => (dt, ([] : List Packet))) := by
  have hfacts : ((withConfig .default : Net Unit).addHosts overtakenHosts).toOption.bind (fun n =>
      (n.run delayShort overtakenOps).toOption.map fun r =>
        (ticksIn r.2).map (fun r => (r.now, r.due.map Scheduled.deliverAt, r.sent.length)))
      = some [(1, [], 2), (3, [3], 0)] := by
    decide +kernel
  obtain ⟨n, hn, hfacts⟩ := Option.bind_eq_some_iff.mp hfacts
  obtain ⟨⟨n', events⟩, hr, hticks⟩ := Option.map_eq_some_iff.mp hfacts
  have hn := toOption_eq_some.mp hn
  have hr := toOption_eq_some.mp hr
  exact ⟨n, n', events, hn, hr, hticks,
    (schedule_is_kept .default overtakenHosts overtakenOps hn hr).2.1⟩

end Net

end Turmoil.Network
