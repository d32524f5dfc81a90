/-
# Barriers

`barriers.rs`.  Source code triggers a value; a test registers barriers, each with the type of the
values it is about, a condition on them, and a reaction.  A value goes to the first barrier that was
registered for it, by the channel between the two halves of the barrier.  With `Reaction::Suspend` the
source waits until the handle that came with the value is dropped.

The two halves are `BarrierState`, in the repo, and `Barrier`, in the test.  The handle is named by the
number of the call that waits for it.
-/
import Mathlib.Data.List.Perm.Basic
import Mathlib.Data.List.Nodup

namespace Turmoil.Barriers

variable {τ : Type} {V : τ → Type}

/-! ## 1. Values of any type -/

/-- `dyn Any`: a value, and its type. -/
structure Any (V : τ → Type) where
  type : τ
  value : V type

/-- `downcast_ref`. -/
def Any.downcast [DecidableEq τ] (T : τ) (x : Any V) : Option (V T) :=
  if h : x.type = T then some (h ▸ x.value) else none

/-! ## 2. The state -/

inductive Reaction where
  | noop
  | suspend
  | panic
  deriving DecidableEq, Repr

structure BarrierState (V : τ → Type) where
  id : Nat
  condition : Any V → Bool
  reaction : Reaction

/-- `Waker`: a value, and the sender that releases the source. -/
abbrev Waker (V : τ → Type) := Any V × Option Nat

/-- The test's half. -/
structure Barrier (V : τ → Type) where
  id : Nat
  type : τ
  fromSrc : List (Waker V)

structure Triggered (V : τ → Type) where
  type : τ
  data : V type
  release : Option Nat

/-- The repo, what the test holds, and the calls of `trigger` that wait to be released. -/
structure State (V : τ → Type) where
  repo : List (BarrierState V)
  barriers : List (Barrier V)
  triggered : List (Triggered V)
  suspended : List Nat
  /-- The numbers of the next barrier, and of the next call. -/
  ids : Nat
  calls : Nat

inductive Event (V : τ → Type) where
  | registered (b : BarrierState V)
  | dropped (id : Nat)
  /-- A call of `trigger`, or of `trigger_noop`. -/
  | triggered (noop : Bool) (x : Any V)
  | received (id : Nat) (x : Any V)
  /-- A call of `trigger` is dropped where it waits. -/
  | cancelled (call : Nat)

/-- `unwrap` of a value that has another type. -/
inductive Panic where
  | downcast
  deriving DecidableEq, Repr

namespace State

def new : State V := ⟨[], [], [], [], 0, 0⟩

/-! ## 3. The operations -/

/-- `Barrier::build`. -/
def build [DecidableEq τ] (s : State V) (reaction : Reaction) (T : τ) (condition : V T → Bool) :
    State V × List (Event V) :=
  let b : BarrierState V := ⟨s.ids, fun x => ((x.downcast T).map condition).getD false, reaction⟩
  ({ s with repo := s.repo ++ [b], barriers := s.barriers ++ [⟨s.ids, T, []⟩], ids := s.ids + 1 },
    [.registered b])

/-- The sender of a handle sends, or is dropped: the source goes on. -/
def release (s : State V) (handles : List Nat) : State V :=
  { s with suspended := s.suspended.filter fun n => n ∉ handles }

/-- The handles in a channel. -/
def handles (queue : List (Waker V)) : List Nat := queue.filterMap Prod.snd

/-- The destructor of a `Barrier`: with the receiver, what is in the channel is dropped too. -/
def dropBarrier (s : State V) (id : Nat) : State V × List (Event V) :=
  let s' : State V := { s with
    repo := s.repo.filter fun b => b.id != id
    barriers := s.barriers.filter fun b => b.id != id }
  (s'.release ((s.barriers.filter fun b => b.id == id).flatMap fun b => handles b.fromSrc),
    [.dropped id])

/-- `BarrierRepo::barrier`. -/
def barrier (s : State V) (x : Any V) : Option (BarrierState V) := s.repo.find? fun b => b.condition x

/-- `to_test.send`; without a receiver the message is dropped. -/
def send (s : State V) (id : Nat) (m : Waker V) : State V :=
  { s with barriers := s.barriers.map fun b =>
      if b.id = id then { b with fromSrc := b.fromSrc ++ [m] } else b }

/-- `trigger`.  With `Reaction::Panic` the source panics. -/
def trigger (s : State V) (x : Any V) : State V :=
  match s.barrier x with
  | none => s
  | some b =>
    match b.reaction with
    | .noop => s.send b.id (x, none)
    | .suspend =>
      let waits := if s.barriers.any fun r => r.id == b.id then [s.calls] else []
      { s.send b.id (x, some s.calls) with
        suspended := s.suspended ++ waits, calls := s.calls + 1 }
    | .panic => s

/-- `trigger_noop`; it panics unless the reaction is `Reaction::Noop`. -/
def triggerNoop (s : State V) (x : Any V) : State V :=
  match s.barrier x with
  | none => s
  | some b =>
    match b.reaction with
    | .noop => s.send b.id (x, none)
    | .suspend => s
    | .panic => s

/-- `Barrier::wait`, where there is a message.  (There is no end: the other half is in the repo.) -/
def wait [DecidableEq τ] (s : State V) (id : Nat) :
    Except Panic (State V × List (Event V)) :=
  match s.barriers.find? fun b => b.id == id with
  | none => .ok (s, [])
  | some b =>
    match b.fromSrc with
    | [] => .ok (s, [])
    | (x, release) :: queue =>
      match x.downcast b.type with
      | none => .error .downcast
      | some data =>
        .ok ({ s with
          barriers := s.barriers.map fun r => if r.id = id then { r with fromSrc := queue } else r
          triggered := s.triggered ++ [⟨b.type, data, release⟩] }, [.received id x])

/-- The destructor of a `Triggered`. -/
def dropTriggered (s : State V) (i : Nat) : State V :=
  match s.triggered[i]? with
  | none => s
  | some t => ({ s with triggered := s.triggered.eraseIdx i } : State V).release t.release.toList

end State

/-! ## 4. Steps -/

inductive Op (V : τ → Type) where
  | build (reaction : Reaction) (T : τ) (condition : V T → Bool)
  | dropBarrier (id : Nat)
  | trigger (x : Any V)
  | triggerNoop (x : Any V)
  | wait (id : Nat)
  | dropTriggered (i : Nat)
  /-- A call of `trigger` that waits is dropped. -/
  | cancel (call : Nat)

namespace State

def step [DecidableEq τ] (s : State V) : Op V → Except Panic (State V × List (Event V))
  | .build reaction T condition => .ok (s.build reaction T condition)
  | .dropBarrier id => .ok (s.dropBarrier id)
  | .trigger x => .ok (s.trigger x, [.triggered false x])
  | .triggerNoop x => .ok (s.triggerNoop x, [.triggered true x])
  | .wait id => s.wait id
  | .dropTriggered i => .ok (s.dropTriggered i, [])
  | .cancel call =>
    .ok (if call ∈ s.suspended then (s.release [call], [.cancelled call]) else (s, []))

def run [DecidableEq τ] (s : State V) : List (Op V) → Except Panic (State V × List (Event V))
  | [] => .ok (s, [])
  | op :: ops => do
    let (s, first) ← s.step op
    let (s, rest) ← s.run ops
    .ok (s, first ++ rest)

end State

end Turmoil.Barriers
