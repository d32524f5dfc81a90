/-
# How a simulation ends

`Sim::run` steps until a step says that all clients are finished, or fails.  The only thing that bounds
the number of its steps is the duration of the simulation, which is looked at after every step: with a
tick that is not zero, a run takes at most one step more than there are ticks in what is left of the
duration (`run_ends`).  It returns `Ok` exactly in a state in which no client's software runs.

What the result says is `Says`.  A failure of software is explained by the last step: the software of
one of the hosts that were running before it has failed in its turn (`step_failed`).  A missed deadline
names the duration and the number of steps, and then some client is not finished, however little it
still has to do.  A panic is none of the three; it ends the run with no result.
-/
import Turmoil.Simulation.Runs

namespace Turmoil.Simulation

open Turmoil.Net (IpAddr SocketAddr)
open Turmoil.Top

variable {μ H : Type}

/-! ## 1. Software that fails -/

/-- A turn fails exactly if the software that was running has failed. -/
theorem Rt.tick_failed {rt : Rt} {slept : Nat} {exit : Exit} (h : rt.handle = true) :
    (∃ failure, (rt.tick slept exit).2 = .error failure) ↔ exit = .failed := by
  cases exit with
  | failed =>
    refine iff_of_true ⟨(), ?_⟩ rfl
    simp only [Rt.tick, h, if_true]
  | running =>
    refine iff_of_false ?_ (fun h => by cases h)
    rintro ⟨failure, hf⟩
    simp only [Rt.tick, h, if_true] at hf
    cases hf
  | finished =>
    refine iff_of_false ?_ (fun h => by cases h)
    rintro ⟨failure, hf⟩
    simp only [Rt.tick, h, if_true] at hf
    cases hf
  | cancelled =>
    refine iff_of_false ?_ (fun h => by cases h)
    rintro ⟨failure, hf⟩
    simp only [Rt.tick, h, if_true] at hf
    cases hf

namespace Sim

variable {given : Given μ H} {s s' : Sim μ H} {ev : List (SimEvent μ)}

/-- The turns fail exactly if one of them does.  The turns after it are not made; whether they would
have failed as well does not matter. -/
theorem turns_failed {ts : IpAddr → Turn μ H} : ∀ {addrs : List IpAddr} {s s' : Sim μ H} {b : Bool}
    {ev : List (SimEvent μ)} {result : Except Unit Bool}, addrs.Nodup →
      (∀ a ∈ addrs, ∃ rt, s.rts.get? a = some rt ∧ rt.handle = true) →
      turns given ts addrs s b = .ok (s', ev, result) →
      ((∃ failure, result = .error failure) ↔ ∃ a ∈ addrs, (ts a).exit = .failed) := by
  intro addrs
  induction addrs with
  | nil =>
    intro s s' b ev result _ _ h
    cases h
    refine iff_of_false ?_ ?_
    · rintro ⟨_, h⟩
      cases h
    · rintro ⟨_, h, -⟩
      cases h
  | cons addr addrs ih =>
    intro s s' b ev result hnodup hrunning h
    obtain ⟨haddr, hnodup⟩ := List.nodup_cons.mp hnodup
    obtain ⟨⟨s₁, first, r₁⟩, h₁, h⟩ := Net.bind_eq_ok.mp h
    obtain ⟨rt, hrt, hrts, hresult⟩ := (turn_turned h₁).rts
    obtain ⟨rt', hrt', hhandle⟩ := hrunning addr (List.mem_cons_self ..)
    rw [hrt] at hrt'
    cases hrt'
    have hfailed := @Rt.tick_failed rt (given.slept s.config.tick) (ts addr).exit hhandle
    cases htick : (rt.tick (given.slept s.config.tick) (ts addr).exit).2 with
    | error failure =>
      rw [htick] at hresult
      cases hresult
      cases h
      refine iff_of_true ⟨_, rfl⟩ ⟨addr, List.mem_cons_self .., ?_⟩
      exact hfailed.mp ⟨failure, htick⟩
    | ok finished =>
      have hlives : (ts addr).exit ≠ .failed := by
        intro hexit
        obtain ⟨failure, hf⟩ := hfailed.mpr hexit
        rw [htick] at hf
        cases hf
      rw [htick] at hresult
      cases hresult
      obtain ⟨⟨s₂, rest, r₂⟩, h₂, h⟩ := Net.bind_eq_ok.mp h
      cases h
      have hrest : ∀ a ∈ addrs, ∃ rt, s₁.rts.get? a = some rt ∧ rt.handle = true := by
        intro a ha
        have hne : a ≠ addr := fun e => haddr (e ▸ ha)
        rw [hrts, if_neg hne]
        exact hrunning a (List.mem_cons_of_mem _ ha)
      rw [ih hnodup hrest h₂]
      simp only [List.mem_cons, exists_eq_or_imp, hlives, false_or]

/-- **A step fails by software** exactly if a host's software that ran has failed in its turn. -/
theorem step_failed {ts : IpAddr → Turn μ H} {order : Shuffle} {outcome : Except Failure Bool}
    (h : s.step given ts order = .ok (s', ev, outcome)) :
    outcome = .error .software ↔ ∃ a ∈ s.withSoftware true, (ts a).exit = .failed := by
  obtain ⟨⟨s₁, events, r⟩, hturns, h⟩ := Net.bind_eq_ok.mp h
  have hnodup : (s.inOrder order).Nodup :=
    (s.inOrder_perm order).nodup_iff.mpr (s.withSoftware_nodup true)
  have hrunning : ∀ a ∈ s.inOrder order, ∃ rt, s.rts.get? a = some rt ∧ rt.handle = true := fun a ha =>
    mem_withSoftware.mp ((s.inOrder_perm order).mem_iff.mp ha)
  have hfailed := turns_failed (s := { s with world := { s.world with
    topology := s.world.topology.tickBy (given.slept s.config.tick) } }) hnodup hrunning hturns
  have hperm : (∃ a ∈ s.inOrder order, (ts a).exit = .failed)
      ↔ ∃ a ∈ s.withSoftware true, (ts a).exit = .failed := by
    simp only [(s.inOrder_perm order).mem_iff]
  rw [← hperm, ← hfailed]
  cases r with
  | error failure =>
    cases h
    exact iff_of_true rfl ⟨failure, rfl⟩
  | ok isFinished =>
    obtain ⟨w, -, h⟩ := Net.bind_eq_ok.mp h
    obtain ⟨elapsed, -, h⟩ := Net.bind_eq_ok.mp h
    dsimp only at h
    refine iff_of_false ?_ ?_
    · rintro rfl
      split at h <;> cases h
    · rintro ⟨failure, hf⟩
      cases hf

/-! ## 2. Runs -/

/-- The steps that are left when every step but the last ends within the duration. -/
def stepsLeft (s : Sim μ H) : Nat :=
  (s.config.duration.nanos - s.elapsed.nanos) / s.config.tick.nanos + 1

/-- What the result of a run says of the simulation it leaves.  A failed host was running before the
last step, which is the one that failed. -/
def Says (given : Given μ H) (ts : Nat → IpAddr → Turn μ H) (order : Nat → Shuffle) (s : Sim μ H) :
    Except Failure Unit → Prop
  | .ok _ => ∀ a, s.ClientsDone a
  | .error .software => ∃ (before : Sim μ H) (ev : List (SimEvent μ)),
    before.step given (ts s.steps) (order s.steps) = .ok (s, ev, .error .software)
      ∧ ∃ a ∈ before.withSoftware true, (ts s.steps a).exit = .failed
  | .error (.deadline duration steps) => duration = s.config.duration ∧ steps = s.steps
    ∧ ¬ s.elapsed ≤ duration ∧ ∃ a, ¬ s.ClientsDone a

/-- A step that software ends is not counted. -/
theorem Stepped.software_steps {order : Shuffle} {outcome : Except Failure Bool}
    {ts : IpAddr → Turn μ H} (h : s.step given ts order = .ok (s', ev, outcome))
    (hsoft : outcome = .error .software) : s'.steps = s.steps := by
  obtain ⟨⟨s₁, events, r⟩, hturns, h⟩ := Net.bind_eq_ok.mp h
  obtain ⟨⟨-, -, -, f4⟩, -⟩ := turns_same hturns
  cases r with
  | error failure =>
    cases h
    exact f4
  | ok isFinished =>
    obtain ⟨w, -, h⟩ := Net.bind_eq_ok.mp h
    obtain ⟨elapsed, -, h⟩ := Net.bind_eq_ok.mp h
    dsimp only at h
    subst hsoft
    split at h <;> cases h

/-- The loop of `run`, by induction on the steps that may still be taken.  A step after which the loop
goes on has ended within the duration, so that one step less is left. -/
theorem runLoop_ends {ts : Nat → IpAddr → Turn μ H} {order : Nat → Shuffle} :
    ∀ {fuel : Nat} {s : Sim μ H}, 0 < s.config.tick.nanos → s.stepsLeft ≤ fuel →
      ∃ out, s.runLoop given ts order fuel = some out
        ∧ ∀ s' result, out = .ok (s', result) →
          s'.steps ≤ s.steps + s.stepsLeft ∧ s'.Says given ts order result := by
  intro fuel
  induction fuel with
  | zero =>
    intro s _ hfuel
    exact absurd hfuel (Nat.not_succ_le_zero _)
  | succ fuel ih =>
    intro s htick hfuel
    rw [runLoop]
    cases hstep : s.step given (ts s.steps) (order s.steps) with
    | error panic => exact ⟨_, rfl, fun _ _ h => by cases h⟩
    | ok r =>
      obtain ⟨s₁, ev, outcome⟩ := r
      have hstepped := step_stepped hstep
      have hone : 1 ≤ s.stepsLeft := Nat.le_add_left 1 _
      cases outcome with
      | error failure =>
        refine ⟨_, rfl, fun s' result h => ?_⟩
        cases h
        cases failure with
        | software =>
          have hsteps := Stepped.software_steps hstep rfl
          have hfailed := (step_failed hstep).mp rfl
          rw [← hsteps] at hstep hfailed
          exact ⟨by omega, s, ev, hstep, hfailed⟩
        | deadline d n =>
          obtain ⟨rfl, rfl, hlate, hopen⟩ := hstepped.deadline d n rfl
          have hsteps := (hstepped.elapsed fun h => by cases h).2
          exact ⟨by omega, rfl, rfl, hlate, hopen⟩
      | ok finished =>
        obtain ⟨helapsed, hsteps⟩ := hstepped.elapsed fun h => by cases h
        cases finished with
        | true =>
          refine ⟨_, rfl, fun s' result h => ?_⟩
          cases h
          exact ⟨by omega, hstepped.finished rfl⟩
        | false =>
          -- a step that does not end the run ends within the duration
          have hconfig := hstepped.config.1
          have hwithin : s₁.elapsed.nanos ≤ s₁.config.duration.nanos := (hstepped.unfinished rfl).1
          rw [hconfig] at hwithin
          have hleft : s₁.stepsLeft + 1 = s.stepsLeft := by
            have hdiv := Nat.div_eq_sub_div htick
              (show s.config.tick.nanos ≤ s.config.duration.nanos - s.elapsed.nanos by omega)
            rw [stepsLeft, stepsLeft, hconfig, hdiv, helapsed, Nat.sub_sub]
          obtain ⟨out, hout, hall⟩ := @ih s₁ (by rw [hconfig]; exact htick) (by omega)
          refine ⟨out, hout, fun s' result h => ?_⟩
          obtain ⟨hle, hsays⟩ := hall s' result h
          exact ⟨by omega, hsays⟩

/-- **A run ends.**  With a tick that is not zero, `run` returns after at most `stepsLeft` steps,
whatever the software does.  It says that all clients are finished, or that software which was running
has failed in the last step, or that the duration is over and a client still runs. -/
theorem run_ends (given : Given μ H) (ts : Nat → IpAddr → Turn μ H) (order : Nat → Shuffle)
    (s : Sim μ H) (htick : 0 < s.config.tick.nanos) (fuel : Nat) (hfuel : s.stepsLeft ≤ fuel) :
    ∃ out, s.run given ts order fuel = some out
      ∧ ∀ s' result, out = .ok (s', result) →
        s'.steps ≤ s.steps + s.stepsLeft ∧ s'.Says given ts order result := by
  rw [run]
  split
  · exact runLoop_ends htick hfuel
  · rename_i hnone
    refine ⟨_, rfl, fun s' result h => ?_⟩
    cases h
    refine ⟨Nat.le_add_right _ _, fun a rt hrt hclient => absurd ?_ hnone⟩
    rw [List.any_eq_true]
    exact ⟨rt, List.mem_map.mpr ⟨(a, rt), IndexMap.mem_entries.mpr hrt, rfl⟩, hclient⟩

/-- A client that is not finished, over a duration of two ticks. -/
def idleClient : Except SimPanic (Sim Nat Unit) :=
  (Sim.new ⟨.fromMillis 2, .fromMillis 1, false⟩ oneMilliLinks (.fromMillis 0)).add .client (.v4 1) 0 ()

/-- A client that is never finished is stopped after three steps at most. -/
theorem run_ends_idle : ∃ s, idleClient = .ok s
    ∧ ∃ out, s.run echoing (fun _ _ => idleTurn) (fun _ _ => Equiv.refl _) 3 = some out
      ∧ ∀ s' result, out = .ok (s', result) →
        s'.steps ≤ s.steps + s.stepsLeft
          ∧ s'.Says echoing (fun _ _ => idleTurn) (fun _ _ => Equiv.refl _) result := by
  obtain ⟨s, hs, htick, hleft⟩ : ∃ s, idleClient = .ok s ∧ 0 < s.config.tick.nanos
      ∧ s.stepsLeft ≤ 3 := ⟨_, rfl, by decide, by decide⟩
  exact ⟨s, hs, run_ends echoing _ _ s htick 3 hleft⟩

end Sim

end Turmoil.Simulation
