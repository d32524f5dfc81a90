/-
# What a step does

One lemma for each function of `Turmoil.Simulation.World`.  Of the topology they say which calls move
its links (`Steers`), of the hosts where their clocks stand (`World.simTime`), and of the runtimes
which software still runs.

A step ticks every link once, then serves the hosts whose software runs and lets them act, each once,
in some order; the clocks of all hosts, running or not, move by one tick.  Each of these is a part of
`Stepped`, and `step_stepped` is the theorem that the rest of the directory uses in place of the
definition of `step`.

Two cases are kept apart throughout.  When the software of a host fails, the step is left at once: the
hosts that come later are not served, their clocks do not move, and neither does the simulation's.  The
links have been ticked by then, so that what is said of the messages holds of such a step as well.  All
that is said of clocks is for the other case.
-/
import Turmoil.Simulation.World

namespace Turmoil.Simulation

open Turmoil.Net (IpAddr SocketAddr)
open Turmoil.Top

variable {μ H : Type}

/-! ## 1. Timers -/

theorem lift_eq_ok {α : Type} {x : Except LatencyPanic α} {a : α} : lift x = .ok a ↔ x = .ok a := by
  cases x with
  | error panic => exact iff_of_false (fun h => by cases h) (fun h => by cases h)
  | ok b => exact Iff.of_eq (by rw [lift, Except.mapError, Except.ok.injEq, Except.ok.injEq])

theorem lift_add {a b d : Duration} : lift (a.add b) = .ok d ↔ d.nanos = a.nanos + b.nanos :=
  lift_eq_ok.trans Duration.add_eq_ok

namespace HostTimer

variable {t t' : HostTimer} {d : Duration}

/-- The timer of a host counts the ticks; its start is not touched again. -/
theorem tick_eq_ok (h : t.tick d = .ok t') :
    t'.elapsed.nanos = t.elapsed.nanos + d.nanos ∧ t'.startOffset = t.startOffset := by
  obtain ⟨elapsed, helapsed, h⟩ := Net.bind_eq_ok.mp h
  cases h
  exact ⟨lift_add.mp helapsed, rfl⟩

/-- What the clock of the runtime has moved by since it was noted is added to both durations.  The time
a host reads is therefore that of its timer, and of the simulation at its registration, and the time
since its turn began. -/
theorem simElapsedAt_eq_ok {now offset : Nat}
    (h : (t.setNow now).simElapsedAt (now + offset) = .ok d) :
    d.nanos = t.startOffset.nanos + t.elapsed.nanos + offset := by
  obtain ⟨elapsed, helapsed, h⟩ := Net.bind_eq_ok.mp h
  obtain ⟨run, hrun, helapsed⟩ := Net.bind_eq_ok.mp helapsed
  have hoffset : run.nanos = offset := by
    unfold since at hrun
    split at hrun
    · cases hrun
      exact Nat.add_sub_cancel_left now offset
    · cases hrun
  have helapsed := lift_add.mp helapsed
  have h := lift_add.mp h
  rw [h, helapsed, hoffset, Nat.add_assoc]
  rfl

end HostTimer

/-! ## 2. The world -/

/-- Where the clock of a host stands, from the start of the simulation. -/
def World.simTime (w : World μ H) (a : IpAddr) : Option Nat :=
  (w.hosts.get? a).map fun host => host.timer.startOffset.nanos + host.timer.elapsed.nanos

namespace World

variable {w w' w'' : World μ H} {ev ev' : List (TopEvent μ)}

/-- A host is there exactly if it has a clock, so that the lemmas below can speak of clocks only. -/
theorem contains_eq_isSome (w : World μ H) (a : IpAddr) :
    w.hosts.contains a = (w.simTime a).isSome := by
  rw [simTime, Option.isSome_map]
  rfl

/-- What the acts of a host leave.  They may use the topology, but no act ticks a link or moves a
clock: time passes between the turns and not within one. -/
structure Acted (receive : H → Envelope μ → H × Option μ) (w w' : World μ H)
    (ev : List (TopEvent μ)) : Prop where
  steers : Steers receive Stills w.topology w'.topology ev
  now : w'.topology.now = w.topology.now
  simTime : ∀ a, w'.simTime a = w.simTime a

theorem Acted.refl (receive : H → Envelope μ → H × Option μ) (w : World μ H) :
    Acted receive w w [] := ⟨.refl Stills.nil _, rfl, fun _ => rfl⟩

theorem Acted.trans {receive : H → Envelope μ → H × Option μ} (h : Acted receive w w' ev)
    (h' : Acted receive w' w'' ev') : Acted receive w w'' (ev ++ ev') where
  steers := h.steers.trans h'.steers Stills.append
  now := h'.now.trans h.now
  simTime a := (h'.simTime a).trans (h.simTime a)

/-- **One act**, of any of the three kinds.  Only `send` and `fault` reach the topology; a change of
the host keeps its timer. -/
theorem perform_acted (receive : H → Envelope μ → H × Option μ) {act : Act μ H}
    (h : w.perform act = .ok (w', ev)) : Acted receive w w' ev := by
  cases act with
  | change f =>
    rw [perform] at h
    split at h
    · cases h
    · rename_i addr haddr
      split at h
      · cases h
        refine ⟨.refl Stills.nil _, rfl, fun a => ?_⟩
        rw [simTime, IndexMap.get?_modify]
        split
        · rename_i ha
          rw [Option.map_map, simTime, ha]
          rfl
        · rfl
      · cases h
  | send draw e =>
    obtain ⟨⟨t, events, r⟩, hsend, h⟩ := Net.bind_eq_ok.mp h
    cases h
    obtain ⟨hst, hnow⟩ := Topology.sendMessage_steers (lift_eq_ok.mp hsend)
    exact ⟨hst, hnow, fun _ => rfl⟩
  | fault f a b =>
    obtain ⟨t, hfault, h⟩ := Net.bind_eq_ok.mp h
    cases h
    obtain ⟨hst, hnow⟩ := Topology.fault_steers (lift_eq_ok.mp hfault)
    exact ⟨hst, hnow, fun _ => rfl⟩

/-- The acts of a turn, one after the other.  The same lemma serves the drops of a crash. -/
theorem performAll_acted (receive : H → Envelope μ → H × Option μ) {acts : List (Act μ H)} :
    ∀ {w w' : World μ H} {ev : List (TopEvent μ)}, w.performAll acts = .ok (w', ev) →
      Acted receive w w' ev := by
  induction acts with
  | nil =>
    intro w w' ev h
    cases h
    exact .refl receive w
  | cons act acts ih =>
    intro w w' ev h
    obtain ⟨⟨w₁, first⟩, h₁, h⟩ := Net.bind_eq_ok.mp h
    obtain ⟨⟨w₂, rest⟩, h₂, h⟩ := Net.bind_eq_ok.mp h
    cases h
    exact (perform_acted receive h₁).trans (ih h₂)

/-- `World::tick`: the clock of one host moves. -/
theorem tick_eq_ok {addr : IpAddr} {d : Duration} (h : w.tick addr d = .ok w') :
    w'.topology = w.topology
      ∧ ∀ a, w'.simTime a = (w.simTime a).map (· + if a = addr then d.nanos else 0) := by
  rw [tick] at h
  split at h
  · cases h
  · rename_i host hhost
    obtain ⟨timer, htimer, h⟩ := Net.bind_eq_ok.mp h
    cases h
    obtain ⟨helapsed, hstart⟩ := HostTimer.tick_eq_ok htimer
    refine ⟨rfl, fun a => ?_⟩
    rw [simTime, simTime, IndexMap.get?_modify]
    split
    · rename_i ha
      subst ha
      rw [hhost]
      simp only [Option.map_some, hstart, helapsed, Nat.add_assoc]
    · rw [Option.map_map]
      rfl

/-- The clocks of a list of hosts.  A host moves as often as it is listed; that no host is listed twice
is shown where the lists come from. -/
theorem tickAll_eq_ok {d : Duration} : ∀ {addrs : List IpAddr} {w w' : World μ H},
    addrs.foldlM (fun w addr => w.tick addr d) w = .ok w' →
      w'.topology = w.topology
        ∧ ∀ a, w'.simTime a = (w.simTime a).map (· + addrs.count a * d.nanos) := by
  intro addrs
  induction addrs with
  | nil =>
    intro w w' h
    cases h
    refine ⟨rfl, fun a => ?_⟩
    simp only [List.count_nil, Nat.zero_mul, Nat.add_zero, Option.map_id']
  | cons addr addrs ih =>
    intro w w' h
    obtain ⟨w₁, h₁, h⟩ := foldlM_cons_eq_ok.mp h
    obtain ⟨htop₁, htime₁⟩ := tick_eq_ok h₁
    obtain ⟨htop, htime⟩ := ih h
    refine ⟨htop.trans htop₁, fun a => ?_⟩
    rw [htime, htime₁, Option.map_map]
    congr 1
    funext n
    by_cases ha : a = addr
    · subst ha
      simp only [Function.comp_apply, if_pos, List.count_cons_self, Nat.add_mul, Nat.one_mul]
      omega
    · simp only [Function.comp_apply, if_neg ha, List.count_cons_of_ne (Ne.symm ha), Nat.add_zero]

end World

/-! ## 3. Turns -/

theorem Rt.tick_kind (rt : Rt) (slept : Nat) (exit : Exit) : (rt.tick slept exit).1.kind = rt.kind := by
  cases hhandle : rt.handle with
  | false => simp only [Rt.tick, hhandle, Bool.false_eq_true, if_false]
  | true => cases exit <;> simp only [Rt.tick, hhandle, if_true]

/-- A client's software is finished exactly if its runtime has no handle any more. -/
theorem Rt.tick_finished {rt : Rt} {slept : Nat} {exit : Exit} {finished : Bool}
    (h : .ok finished = (rt.tick slept exit).2.map (!rt.isClient || ·)) :
    finished = true ↔ (rt.isClient = true → (rt.tick slept exit).1.handle = false) := by
  cases hhandle : rt.handle with
  | false =>
    simp only [Rt.tick, hhandle, Bool.false_eq_true, if_false, Except.map, Except.ok.injEq,
      Bool.or_true] at h ⊢
    simp only [h, implies_true]
  | true =>
    cases exit with
    | failed =>
      simp only [Rt.tick, hhandle, if_true, Except.map] at h
      cases h
    | running =>
      simp only [Rt.tick, hhandle, if_true, Except.map, Except.ok.injEq, Bool.or_false] at h ⊢
      rw [h, Bool.not_eq_true']
      simp
    | finished =>
      simp only [Rt.tick, hhandle, if_true, Except.map, Except.ok.injEq, Bool.or_true] at h ⊢
      simp only [h, implies_true]
    | cancelled =>
      simp only [Rt.tick, hhandle, if_true, Except.map, Except.ok.injEq, Bool.or_true] at h ⊢
      simp only [h, implies_true]

@[simp] theorem onLinks_append (ev ev' : List (SimEvent μ)) :
    onLinks (ev ++ ev') = onLinks ev ++ onLinks ev' :=
  List.filterMap_append

@[simp] theorem onLinks_map (ev : List (TopEvent μ)) : onLinks (ev.map .link) = ev := by
  rw [onLinks, List.filterMap_map]
  exact List.filterMap_some

namespace Sim

variable {given : Given μ H} {s s' : Sim μ H} {addr : IpAddr} {tn : Turn μ H}
  {ev : List (SimEvent μ)} {result : Except Unit Bool}

/-- What a host reads in its turn does not concern the links, and each value is its clock at the time
of the turn at which it was read. -/
theorem readings_eq_ok {timer : HostTimer} {now : Nat} : ∀ {offsets : List Nat}
    {ev : List (SimEvent μ)}, readings (timer.setNow now) addr now offsets = .ok ev →
      onLinks ev = [] ∧ ∀ a offset value, .clock a offset value ∈ ev →
        a = addr ∧ value.nanos = timer.startOffset.nanos + timer.elapsed.nanos + offset := by
  intro offsets
  induction offsets with
  | nil =>
    intro ev h
    cases h
    exact ⟨rfl, fun _ _ _ h => by cases h⟩
  | cons offset offsets ih =>
    intro ev h
    obtain ⟨value, hvalue, h⟩ := Net.bind_eq_ok.mp h
    obtain ⟨rest, hrest, h⟩ := Net.bind_eq_ok.mp h
    cases h
    obtain ⟨hlinks, hall⟩ := ih hrest
    refine ⟨hlinks, fun a offset' value' hmem => ?_⟩
    rcases List.mem_cons.mp hmem with heq | hmem
    · cases heq
      exact ⟨rfl, HostTimer.simElapsedAt_eq_ok hvalue⟩
    · exact hall a offset' value' hmem

/-- What the end of a turn leaves of the clocks and the runtimes.  A turn that fails does not move the
clock of its host: `Rt::tick` returns the failure before `World::tick` is reached. -/
structure Ended (given : Given μ H) (addr : IpAddr) (exit : Exit) (rt : Rt) (s s' : Sim μ H)
    (w : World μ H) (result : Except Unit Bool) : Prop where
  same : s'.config = s.config ∧ s'.sinceEpoch = s.sinceEpoch ∧ s'.elapsed = s.elapsed
    ∧ s'.steps = s.steps
  topology : s'.world.topology = w.topology
  ticked : ∀ finished, result = .ok finished → ∀ a, s'.world.simTime a
    = (w.simTime a).map (· + if a = addr then s.config.tick.nanos else 0)
  stopped : ∀ failure, result = .error failure → ∀ a, s'.world.simTime a = w.simTime a
  rts : s'.rts = s.rts.modify addr fun _ => (rt.tick (given.slept s.config.tick) exit).1
  result : result = (rt.tick (given.slept s.config.tick) exit).2.map (!rt.isClient || ·)

/-- The two ends of a turn: with a failure, or with the clock moved. -/
theorem endTurn_ended {exit : Exit} {rt : Rt} {w : World μ H}
    (h : s.endTurn given addr rt exit w = .ok (s', result)) :
    Ended given addr exit rt s s' w result := by
  rw [endTurn] at h
  split at h
  · rename_i rt' failure hrt
    cases h
    refine ⟨⟨rfl, rfl, rfl, rfl⟩, rfl, fun _ hf => ?_, fun _ _ _ => rfl, ?_, ?_⟩
    · cases hf
    · rw [hrt]
    · rw [hrt]
      rfl
  · rename_i rt' finished hrt
    obtain ⟨w', hw', h⟩ := Net.bind_eq_ok.mp h
    cases h
    obtain ⟨htop, htime⟩ := World.tick_eq_ok hw'
    refine ⟨⟨rfl, rfl, rfl, rfl⟩, htop, fun _ _ a => htime a, fun _ hf => ?_, ?_, ?_⟩
    · cases hf
    · rw [hrt]
    · rw [hrt]
      rfl

/-- What the turn of a host leaves.  It is made up of the parts above: the messages for the host, the
readings, the acts and the end. -/
structure Turned (given : Given μ H) (addr : IpAddr) (tn : Turn μ H) (s s' : Sim μ H)
    (ev : List (SimEvent μ)) (result : Except Unit Bool) : Prop where
  same : s'.config = s.config ∧ s'.sinceEpoch = s.sinceEpoch ∧ s'.elapsed = s.elapsed
    ∧ s'.steps = s.steps
  served : ∃ t ev₁ ev₂, Steers given.receive (Topology.Serves addr) s.world.topology t ev₁
    ∧ Steers given.receive Stills t s'.world.topology ev₂ ∧ onLinks ev = ev₁ ++ ev₂
  now : s'.world.topology.now = s.world.topology.now
  ticked : ∀ finished, result = .ok finished → ∀ a, s'.world.simTime a
    = (s.world.simTime a).map (· + if a = addr then s.config.tick.nanos else 0)
  stopped : ∀ failure, result = .error failure → ∀ a, s'.world.simTime a = s.world.simTime a
  clocks : ∀ a offset value, .clock a offset value ∈ ev →
    a = addr ∧ s.world.simTime a = some (value.nanos - offset) ∧ offset ≤ value.nanos
  rts : ∃ rt, s.rts.get? addr = some rt
    ∧ (∀ a, s'.rts.get? a = if a = addr then some (rt.tick (given.slept s.config.tick) tn.exit).1
      else s.rts.get? a)
    ∧ result = (rt.tick (given.slept s.config.tick) tn.exit).2.map (!rt.isClient || ·)

/-- **A turn.**  This is the only place where the body of `turn` is taken apart; what follows speaks of
`Turned`. -/
theorem turn_turned (h : s.turn given addr tn = .ok (s', ev, result)) :
    Turned given addr tn s s' ev result := by
  rw [turn] at h
  split at h
  · rename_i host rt hhost hrt
    obtain ⟨⟨t, net, delivered⟩, hdel, h⟩ := Net.bind_eq_ok.mp h
    obtain ⟨clocks, hclocks, h⟩ := Net.bind_eq_ok.mp h
    obtain ⟨⟨w, events⟩, hacts, h⟩ := Net.bind_eq_ok.mp h
    obtain ⟨⟨s₁, result₁⟩, hend, h⟩ := Net.bind_eq_ok.mp h
    cases h
    obtain ⟨hserves, hnow⟩ := Topology.deliverMessages_steers (lift_eq_ok.mp hdel)
    have hacted := World.performAll_acted given.receive hacts
    obtain ⟨hnone, hread⟩ := readings_eq_ok hclocks
    have htime : s.world.simTime addr
        = some (host.timer.startOffset.nanos + host.timer.elapsed.nanos) := by
      rw [World.simTime, hhost, Option.map_some]
    -- the timer knows the instant now, which is not read between the turns
    have hsame : ∀ a, w.simTime a = s.world.simTime a := by
      intro a
      rw [hacted.simTime, World.simTime, World.simTime, IndexMap.get?_modify]
      split
      · rename_i ha
        subst ha
        rw [hhost]
        rfl
      · rfl
    have hlinks : onLinks (delivered.map .link ++ clocks ++ events.map .link) = delivered ++ events := by
      rw [onLinks_append, onLinks_append, onLinks_map, onLinks_map, hnone, List.append_nil]
    have hevents : ∀ a offset value,
        SimEvent.clock a offset value ∈ delivered.map .link ++ clocks ++ events.map .link →
        a = addr ∧ s.world.simTime a = some (value.nanos - offset) ∧ offset ≤ value.nanos := by
      intro a offset value hmem
      have hclock : SimEvent.clock a offset value ∈ clocks := by
        simpa [List.mem_append, List.mem_map] using hmem
      obtain ⟨rfl, hvalue⟩ := hread a offset value hclock
      rw [htime, hvalue, Nat.add_sub_cancel]
      exact ⟨rfl, rfl, Nat.le_add_left _ _⟩
    have hended := endTurn_ended hend
    refine ⟨hended.same, ⟨t, delivered, events, hserves, ?_, hlinks⟩, ?_, fun f hf a => ?_,
      fun f hf a => ?_, hevents, rt, hrt, fun a => ?_, hended.result⟩
    · rw [hended.topology]
      exact hacted.steers
    · rw [hended.topology]
      exact hacted.now.trans hnow
    · rw [hended.ticked f hf a, hsame]
    · rw [hended.stopped f hf a, hsame]
    · rw [hended.rts, IndexMap.get?_modify, hrt]
      rfl
  · cases h

/-- A turn moves the links without a tick, so that it is a part of one and the same instant. -/
theorem Turned.steers (h : Turned given addr tn s s' ev result) :
    Steers given.receive Stills s.world.topology s'.world.topology (onLinks ev) := by
  obtain ⟨t, ev₁, ev₂, hserves, hstill, hev⟩ := h.served
  rw [hev]
  exact (hserves.mono fun h => h.stills).trans hstill Stills.append

/-! ## 4. All turns of a step -/

/-- The host at `addr` is served, and nothing else ticks the links. -/
def Served (receive : H → Envelope μ → H × Option μ) (addr : IpAddr) (t t' : Topology μ)
    (ev : List (TopEvent μ)) : Prop :=
  ∃ t₁ t₂ ev₁ ev₂ ev₃, Steers receive Stills t t₁ ev₁
    ∧ Steers receive (Topology.Serves addr) t₁ t₂ ev₂ ∧ Steers receive Stills t₂ t' ev₃
    ∧ ev = ev₁ ++ ev₂ ++ ev₃

variable {ts : IpAddr → Turn μ H}

/-- All turns together move the links without a tick, also when one of them fails and the rest is left
out. -/
theorem turns_steers : ∀ {addrs : List IpAddr} {s s' : Sim μ H} {b : Bool} {ev : List (SimEvent μ)}
    {result : Except Unit Bool}, turns given ts addrs s b = .ok (s', ev, result) →
      Steers given.receive Stills s.world.topology s'.world.topology (onLinks ev)
        ∧ s'.world.topology.now = s.world.topology.now := by
  intro addrs
  induction addrs with
  | nil =>
    intro s s' b ev result h
    cases h
    exact ⟨.refl Stills.nil _, rfl⟩
  | cons addr addrs ih =>
    intro s s' b ev result h
    obtain ⟨⟨s₁, first, r₁⟩, h₁, h⟩ := Net.bind_eq_ok.mp h
    have hturned := turn_turned h₁
    cases r₁ with
    | error failure =>
      cases h
      exact ⟨hturned.steers, hturned.now⟩
    | ok finished =>
      obtain ⟨⟨s₂, rest, r₂⟩, h₂, h⟩ := Net.bind_eq_ok.mp h
      cases h
      obtain ⟨hst, hnow⟩ := ih h₂
      rw [onLinks_append]
      exact ⟨hturned.steers.trans hst Stills.append, hnow.trans hturned.now⟩

/-- **A host that is in the list is served.**  This needs that no turn fails: a failure ends the step
before the turns of the hosts that come later. -/
theorem turns_served : ∀ {addrs : List IpAddr} {s s' : Sim μ H} {b b' : Bool}
    {ev : List (SimEvent μ)}, turns given ts addrs s b = .ok (s', ev, .ok b') → addr ∈ addrs →
      Served given.receive addr s.world.topology s'.world.topology (onLinks ev) := by
  intro addrs
  induction addrs with
  | nil =>
    intro s s' b b' ev _ hmem
    cases hmem
  | cons addr' addrs ih =>
    intro s s' b b' ev h hmem
    obtain ⟨⟨s₁, first, r₁⟩, h₁, h⟩ := Net.bind_eq_ok.mp h
    have hturned := turn_turned h₁
    cases r₁ with
    | error failure => cases h
    | ok finished =>
      obtain ⟨⟨s₂, rest, r₂⟩, h₂, h⟩ := Net.bind_eq_ok.mp h
      cases h
      rw [onLinks_append]
      rcases List.mem_cons.mp hmem with rfl | hmem
      · obtain ⟨t, ev₁, ev₂, hserves, hstill, hev⟩ := hturned.served
        refine ⟨_, t, [], ev₁, ev₂ ++ onLinks rest, .refl Stills.nil _, hserves,
          hstill.trans (turns_steers h₂).1 Stills.append, ?_⟩
        rw [hev, List.nil_append, List.append_assoc]
      · obtain ⟨t₁, t₂, ev₁, ev₂, ev₃, hbefore, hserves, hafter, hev⟩ := ih h₂ hmem
        refine ⟨t₁, t₂, onLinks first ++ ev₁, ev₂, ev₃,
          hturned.steers.trans hbefore Stills.append, hserves, hafter, ?_⟩
        rw [hev]
        simp only [List.append_assoc]

/-- The clocks of the hosts that had their turn.  It is an equation with `count`, since `World::tick`
is called for the hosts that do not run as well, and the two lists are added up afterwards. -/
theorem turns_simTime : ∀ {addrs : List IpAddr} {s s' : Sim μ H} {b b' : Bool}
    {ev : List (SimEvent μ)}, turns given ts addrs s b = .ok (s', ev, .ok b') → ∀ a,
      s'.world.simTime a
        = (s.world.simTime a).map (· + addrs.count a * s.config.tick.nanos) := by
  intro addrs
  induction addrs with
  | nil =>
    intro s s' b b' ev h a
    cases h
    simp only [List.count_nil, Nat.zero_mul, Nat.add_zero, Option.map_id']
  | cons addr addrs ih =>
    intro s s' b b' ev h a
    obtain ⟨⟨s₁, first, r₁⟩, h₁, h⟩ := Net.bind_eq_ok.mp h
    have hturned := turn_turned h₁
    cases r₁ with
    | error failure => cases h
    | ok finished =>
      obtain ⟨⟨s₂, rest, r₂⟩, h₂, h⟩ := Net.bind_eq_ok.mp h
      cases h
      rw [ih h₂, hturned.ticked finished rfl, hturned.same.1, Option.map_map]
      congr 1
      funext n
      by_cases ha : a = addr
      · subst ha
        simp only [Function.comp_apply, if_pos, List.count_cons_self, Nat.add_mul, Nat.one_mul]
        omega
      · simp only [Function.comp_apply, if_neg ha, List.count_cons_of_ne (Ne.symm ha), Nat.add_zero]

/-- What a turn leaves as it was, whatever its end. -/
theorem turns_same : ∀ {addrs : List IpAddr} {s s' : Sim μ H} {b : Bool} {ev : List (SimEvent μ)}
    {result : Except Unit Bool}, turns given ts addrs s b = .ok (s', ev, result) →
      (s'.config = s.config ∧ s'.sinceEpoch = s.sinceEpoch ∧ s'.elapsed = s.elapsed
        ∧ s'.steps = s.steps)
      ∧ (∀ a, (s'.world.simTime a).isSome = (s.world.simTime a).isSome)
      ∧ (∀ a, (s'.rts.get? a).map Rt.kind = (s.rts.get? a).map Rt.kind)
      ∧ ∀ a ∉ addrs, s'.world.simTime a = s.world.simTime a ∧ s'.rts.get? a = s.rts.get? a := by
  intro addrs
  induction addrs with
  | nil =>
    intro s s' b ev result h
    cases h
    exact ⟨⟨rfl, rfl, rfl, rfl⟩, fun _ => rfl, fun _ => rfl, fun _ _ => ⟨rfl, rfl⟩⟩
  | cons addr addrs ih =>
    intro s s' b ev result h
    obtain ⟨⟨s₁, first, r₁⟩, h₁, h⟩ := Net.bind_eq_ok.mp h
    have hturned := turn_turned h₁
    obtain ⟨rt, hrt, hrts, -⟩ := hturned.rts
    have hkind : ∀ a, (s₁.rts.get? a).map Rt.kind = (s.rts.get? a).map Rt.kind := by
      intro a
      rw [hrts]
      split
      · rename_i ha
        rw [ha, hrt, Option.map_some, Option.map_some, Rt.tick_kind]
      · rfl
    have hother : ∀ a ≠ addr, s₁.world.simTime a = s.world.simTime a
        ∧ s₁.rts.get? a = s.rts.get? a := by
      intro a ha
      refine ⟨?_, by rw [hrts, if_neg ha]⟩
      cases r₁ with
      | error failure => exact hturned.stopped failure rfl a
      | ok finished =>
        rw [hturned.ticked finished rfl, if_neg ha]
        simp only [Nat.add_zero, Option.map_id']
    have hsome : ∀ a, (s₁.world.simTime a).isSome = (s.world.simTime a).isSome := by
      intro a
      cases r₁ with
      | error failure => rw [hturned.stopped failure rfl a]
      | ok finished => rw [hturned.ticked finished rfl, Option.isSome_map]
    cases r₁ with
    | error failure =>
      cases h
      exact ⟨hturned.same, hsome, hkind, fun a ha => hother a fun e => ha (e ▸ List.mem_cons_self ..)⟩
    | ok finished =>
      obtain ⟨⟨s₂, rest, r₂⟩, h₂, h⟩ := Net.bind_eq_ok.mp h
      cases h
      obtain ⟨⟨f1, f2, f3, f4⟩, hsome', hkind', hrest⟩ := ih h₂
      obtain ⟨g1, g2, g3, g4⟩ := hturned.same
      refine ⟨⟨f1.trans g1, f2.trans g2, f3.trans g3, f4.trans g4⟩,
        fun a => (hsome' a).trans (hsome a), fun a => (hkind' a).trans (hkind a), fun a ha => ?_⟩
      obtain ⟨hne, hnot⟩ := not_or.mp (mt List.mem_cons.mpr ha)
      obtain ⟨htime, hrts'⟩ := hrest a hnot
      exact ⟨htime.trans (hother a hne).1, hrts'.trans (hother a hne).2⟩

/-- What a host reads in its turn: where its clock stood before the step, and the time of the turn.
The turns before its own have moved other clocks only. -/
theorem turns_clocks : ∀ {addrs : List IpAddr} {s s' : Sim μ H} {b : Bool}
    {ev : List (SimEvent μ)} {result : Except Unit Bool}, addrs.Nodup →
      turns given ts addrs s b = .ok (s', ev, result) →
      ∀ a offset value, .clock a offset value ∈ ev →
        a ∈ addrs ∧ s.world.simTime a = some (value.nanos - offset) ∧ offset ≤ value.nanos := by
  intro addrs
  induction addrs with
  | nil =>
    intro s s' b ev result _ h a offset value hmem
    cases h
    cases hmem
  | cons addr addrs ih =>
    intro s s' b ev result hnodup h a offset value hmem
    obtain ⟨haddr, hnodup⟩ := List.nodup_cons.mp hnodup
    obtain ⟨⟨s₁, first, r₁⟩, h₁, h⟩ := Net.bind_eq_ok.mp h
    have hturned := turn_turned h₁
    have hfirst : .clock a offset value ∈ first → a ∈ addr :: addrs
        ∧ s.world.simTime a = some (value.nanos - offset) ∧ offset ≤ value.nanos := by
      intro hmem
      obtain ⟨rfl, htime⟩ := hturned.clocks a offset value hmem
      exact ⟨List.mem_cons_self .., htime⟩
    cases r₁ with
    | error failure =>
      cases h
      exact hfirst hmem
    | ok finished =>
      obtain ⟨⟨s₂, rest, r₂⟩, h₂, h⟩ := Net.bind_eq_ok.mp h
      cases h
      rcases List.mem_append.mp hmem with hmem | hmem
      · exact hfirst hmem
      · obtain ⟨ha, htime, hle⟩ := ih hnodup h₂ a offset value hmem
        have hne : a ≠ addr := fun e => haddr (e ▸ ha)
        rw [hturned.ticked finished rfl, if_neg hne] at htime
        simp only [Nat.add_zero, Option.map_id'] at htime
        exact ⟨List.mem_cons_of_mem _ ha, htime, hle⟩

/-- Whether all clients are finished. -/
def ClientsDone (s : Sim μ H) (a : IpAddr) : Prop :=
  ∀ rt, s.rts.get? a = some rt → rt.isClient = true → rt.handle = false

/-- The answer of the turns: every client that had one has finished.  A host that is no client is not
asked. -/
theorem turns_finished : ∀ {addrs : List IpAddr} {s s' : Sim μ H} {b b' : Bool}
    {ev : List (SimEvent μ)}, addrs.Nodup → turns given ts addrs s b = .ok (s', ev, .ok b') →
      (b' = true ↔ b = true ∧ ∀ a ∈ addrs, s'.ClientsDone a) := by
  intro addrs
  induction addrs with
  | nil =>
    intro s s' b b' ev _ h
    cases h
    exact ⟨fun hb => ⟨hb, fun a ha => by cases ha⟩, fun h => h.1⟩
  | cons addr addrs ih =>
    intro s s' b b' ev hnodup h
    obtain ⟨haddr, hnodup⟩ := List.nodup_cons.mp hnodup
    obtain ⟨⟨s₁, first, r₁⟩, h₁, h⟩ := Net.bind_eq_ok.mp h
    obtain ⟨rt, hrt, hrts, hresult⟩ := (turn_turned h₁).rts
    cases r₁ with
    | error failure => cases h
    | ok finished =>
      obtain ⟨⟨s₂, rest, r₂⟩, h₂, h⟩ := Net.bind_eq_ok.mp h
      cases h
      -- the runtime is not looked at again
      have hget : s'.rts.get? addr = some (rt.tick (given.slept s.config.tick) (ts addr).exit).1 := by
        rw [((turns_same h₂).2.2.2 addr haddr).2, hrts, if_pos rfl]
      have hdone : finished = true ↔ s'.ClientsDone addr := by
        have hfin := Rt.tick_finished hresult
        rw [hfin, ClientsDone, hget]
        constructor
        · intro h rt' hrt' hclient
          cases hrt'
          rw [Rt.isClient, Rt.tick_kind] at hclient
          exact h hclient
        · intro h hclient
          exact h _ rfl (by rw [Rt.isClient, Rt.tick_kind]; exact hclient)
      rw [ih hnodup h₂, Bool.and_eq_true, and_assoc, hdone, List.forall_mem_cons]

/-! ## 5. The step -/

variable {order : Shuffle} {outcome : Except Failure Bool}

/-- The running hosts, in the order in which they have their turns. -/
def inOrder (s : Sim μ H) (order : Shuffle) : List IpAddr :=
  if s.config.randomNodeOrder then shuffle order (s.withSoftware true) else s.withSoftware true

/-- The order of the hosts may be shuffled, so nothing below depends on it. -/
theorem inOrder_perm (s : Sim μ H) (order : Shuffle) :
    (s.inOrder order).Perm (s.withSoftware true) := by
  unfold inOrder
  split
  · exact shuffle_perm order _
  · exact List.Perm.refl _

theorem withSoftware_nodup (s : Sim μ H) (running : Bool) : (s.withSoftware running).Nodup :=
  s.rts.nodup.sublist (List.filter_sublist.map Prod.fst)

/-- The two lists of `running`, by the handle of the runtime. -/
theorem mem_withSoftware {s : Sim μ H} {running : Bool} {a : IpAddr} :
    a ∈ s.withSoftware running ↔ ∃ rt, s.rts.get? a = some rt ∧ rt.handle = running := by
  simp only [withSoftware, List.mem_map, List.mem_filter, beq_iff_eq, Prod.exists,
    exists_and_right, exists_eq_right, IndexMap.mem_entries]
  exact Iff.rfl

/-- Every host is either running or stopped.  So `tick` is called once for it, in its own turn or at
the end of the step. -/
theorem count_withSoftware (s : Sim μ H) (order : Shuffle) (a : IpAddr) :
    (s.inOrder order).count a + (s.withSoftware false).count a
      = if s.rts.contains a then 1 else 0 := by
  have hone : ∀ running, (s.withSoftware running).count a
      = if a ∈ s.withSoftware running then 1 else 0 := fun running =>
    (s.withSoftware_nodup running).count
  rw [(s.inOrder_perm order).count_eq, hone, hone]
  cases hrt : s.rts.get? a with
  | none =>
    rw [if_neg, if_neg, IndexMap.contains_eq_false.mpr hrt]
    · rfl
    · rw [mem_withSoftware, hrt]
      rintro ⟨_, h, -⟩
      cases h
    · rw [mem_withSoftware, hrt]
      rintro ⟨_, h, -⟩
      cases h
  | some rt =>
    simp only [mem_withSoftware, hrt, IndexMap.contains_iff.mpr ⟨rt, hrt⟩, Option.some.injEq,
      exists_eq_left', if_true]
    cases rt.handle <;> rfl

/-- What a step leaves.  The parts that speak of all hosts are for steps in which no software failed: a
step that ends early has moved the clocks of some hosts, and not that of the simulation. -/
structure Stepped (given : Given μ H) (order : Shuffle) (s s' : Sim μ H) (ev : List (SimEvent μ))
    (outcome : Except Failure Bool) : Prop where
  config : s'.config = s.config ∧ s'.sinceEpoch = s.sinceEpoch
  links : ∃ moved, onLinks ev = s.world.topology.tickEvents (given.slept s.config.tick) ++ moved
    ∧ Steers given.receive Stills (s.world.topology.tickBy (given.slept s.config.tick))
      s'.world.topology moved
    ∧ (outcome ≠ .error .software → ∀ a ∈ s.withSoftware true, Served given.receive a
      (s.world.topology.tickBy (given.slept s.config.tick)) s'.world.topology moved)
  now : s'.world.topology.now = s.world.topology.now + given.slept s.config.tick
  hosts : ∀ a, (s'.world.simTime a).isSome = (s.world.simTime a).isSome
  kinds : ∀ a, (s'.rts.get? a).map Rt.kind = (s.rts.get? a).map Rt.kind
  clocks : ∀ a offset value, .clock a offset value ∈ ev →
    s.world.simTime a = some (value.nanos - offset) ∧ offset ≤ value.nanos
  simTime : outcome ≠ .error .software → ∀ a, s'.world.simTime a
    = (s.world.simTime a).map (· + if s.rts.contains a then s.config.tick.nanos else 0)
  elapsed : outcome ≠ .error .software →
    s'.elapsed.nanos = s.elapsed.nanos + s.config.tick.nanos ∧ s'.steps = s.steps + 1
  finished : outcome = .ok true → ∀ a, s'.ClientsDone a
  unfinished : outcome = .ok false → s'.elapsed ≤ s'.config.duration ∧ ∃ a, ¬ s'.ClientsDone a
  deadline : ∀ d n, outcome = .error (.deadline d n) →
    d = s'.config.duration ∧ n = s'.steps ∧ ¬ s'.elapsed ≤ s'.config.duration
      ∧ ∃ a, ¬ s'.ClientsDone a

/-- **A step.**  The links are ticked once, then the turns follow; their answer is that all clients
have finished, as those that were not run had finished before. -/
theorem step_stepped (h : s.step given ts order = .ok (s', ev, outcome)) :
    Stepped given order s s' ev outcome := by
  obtain ⟨⟨s₁, events, r⟩, hturns, h⟩ := Net.bind_eq_ok.mp h
  have hturns : turns given ts (s.inOrder order)
      { s with world := { s.world with
        topology := s.world.topology.tickBy (given.slept s.config.tick) } } true
      = .ok (s₁, events, r) := hturns
  have hnodup : (s.inOrder order).Nodup := (s.inOrder_perm order).nodup_iff.mpr (s.withSoftware_nodup true)
  obtain ⟨hst, hnow⟩ := turns_steers hturns
  obtain ⟨⟨f1, f2, f3, f4⟩, hsome, hkind, hrest⟩ := turns_same hturns
  have hclocks := turns_clocks hnodup hturns
  have hlinks : ∀ ev, onLinks ((s.world.topology.tickEvents (given.slept s.config.tick)).map .link ++ ev)
      = s.world.topology.tickEvents (given.slept s.config.tick) ++ onLinks ev := by
    intro ev
    rw [onLinks_append, onLinks_map]
  have hread : ∀ a offset value, SimEvent.clock a offset value
      ∈ (s.world.topology.tickEvents (given.slept s.config.tick)).map .link ++ events →
      s.world.simTime a = some (value.nanos - offset) ∧ offset ≤ value.nanos := by
    intro a offset value hmem
    have hclock : SimEvent.clock a offset value ∈ events := by
      simpa [List.mem_append, List.mem_map] using hmem
    exact (hclocks a offset value hclock).2
  cases r with
  | error failure =>
    cases h
    exact ⟨⟨f1, f2⟩, ⟨_, hlinks events, hst, fun hne => absurd rfl hne⟩, hnow, hsome, hkind, hread,
      fun hne => absurd rfl hne, fun hne => absurd rfl hne, (fun h => by cases h),
      (fun h => by cases h), fun _ _ h => by cases h⟩
  | ok isFinished =>
    obtain ⟨w, hw, h⟩ := Net.bind_eq_ok.mp h
    obtain ⟨elapsed, helapsed, h⟩ := Net.bind_eq_ok.mp h
    obtain ⟨htop, htime⟩ := World.tickAll_eq_ok hw
    have hadd := lift_add.mp helapsed
    have hserved : ∀ a ∈ s.withSoftware true, Served given.receive a
        (s.world.topology.tickBy (given.slept s.config.tick)) w.topology (onLinks events) := by
      intro a ha
      rw [htop]
      exact turns_served hturns ((s.inOrder_perm order).mem_iff.mpr ha)
    have hall : ∀ a, w.simTime a = (s.world.simTime a).map
        (· + if s.rts.contains a then s.config.tick.nanos else 0) := by
      intro a
      rw [htime, turns_simTime hturns]
      show Option.map _ (Option.map _ (s.world.simTime a)) = _
      rw [Option.map_map]
      congr 1
      funext n
      have hcount := s.count_withSoftware order a
      simp only [Function.comp_apply, Nat.add_assoc, ← Nat.add_mul, hcount]
      split <;> simp
    have hhosts : ∀ a, (w.simTime a).isSome = (s.world.simTime a).isSome := by
      intro a
      rw [hall, Option.isSome_map]
    -- the clients that were not run had finished before
    have hdone : isFinished = true ↔ ∀ a, s₁.ClientsDone a := by
      rw [turns_finished hnodup hturns]
      constructor
      · rintro ⟨-, hrun⟩ a rt hrt hclient
        by_cases ha : a ∈ s.inOrder order
        · exact hrun a ha rt hrt hclient
        · rw [(hrest a ha).2] at hrt
          have hidle := mt (s.inOrder_perm order).mem_iff.mpr ha
          rw [mem_withSoftware] at hidle
          cases hhandle : rt.handle with
          | false => rfl
          | true => exact absurd ⟨rt, hrt, hhandle⟩ hidle
      · exact fun h => ⟨rfl, fun a _ => h a⟩
    have hopen : isFinished = false → ∃ a, ¬ s₁.ClientsDone a := by
      intro hfalse
      by_contra hnone
      rw [not_exists_not, ← hdone, hfalse] at hnone
      cases hnone
    have hafter : Steers given.receive Stills
        (s.world.topology.tickBy (given.slept s.config.tick)) w.topology (onLinks events) := by
      rw [htop]
      exact hst
    have hthen : w.topology.now = s.world.topology.now + given.slept s.config.tick := by
      rw [htop]
      exact hnow
    have hsteps : elapsed.nanos = s.elapsed.nanos + s.config.tick.nanos ∧ s₁.steps + 1 = s.steps + 1 := by
      rw [hadd, f3, f4]
      exact ⟨rfl, rfl⟩
    dsimp only at h
    split at h
    · rename_i hlate
      cases h
      refine ⟨⟨f1, f2⟩, ⟨_, hlinks events, hafter, fun _ => hserved⟩, hthen, hhosts, hkind, hread,
        fun _ => hall, fun _ => hsteps, (fun h => by cases h), (fun h => by cases h), fun d n h => ?_⟩
      cases h
      exact ⟨rfl, rfl, hlate.1, hopen hlate.2⟩
    · rename_i hlate
      cases h
      refine ⟨⟨f1, f2⟩, ⟨_, hlinks events, hafter, fun _ => hserved⟩, hthen, hhosts, hkind, hread,
        fun _ => hall, fun _ => hsteps, fun h => ?_, fun h => ?_, fun _ _ h => by cases h⟩
      · cases h
        exact hdone.mp rfl
      · cases h
        exact ⟨not_not.mp fun h => hlate ⟨h, rfl⟩, hopen rfl⟩

end Sim

end Turmoil.Simulation
