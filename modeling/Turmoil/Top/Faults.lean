/-
# Faults on a link

Two promises of the fault calls, and how far they are kept.

*A direction that was partitioned explicitly stays cut* until the user repairs, holds or releases
the pair (`explicit_cut_persists`).  The random draws act on both directions at once: a random
partition overwrites an explicit one that goes one way, and a random repair then opens both
directions.  So the promise is kept in the runs in which no send draws a random repair while a
direction is randomly partitioned, and broken otherwise (`oneway_cut_ends_by_random_repair`).

*After a partition or a hold nothing is delivered* until a repair or a release.  Both calls rewrite
the queue of messages under way and leave the queue of messages that wait for their host: the
promise is kept exactly if that queue is empty (`cut_delivers_nothing_iff`).
-/
import Turmoil.Top.Conservation

namespace Turmoil.Top

open Turmoil.Net (IpAddr SocketAddr)

variable {μ H : Type}

/-! ## 1. One direction -/

namespace Link

/-- Messages from `a` to `b` are dropped. -/
def Cut (l : Link μ) (a b : IpAddr) : Prop :=
  l.getStateForMessage a b = .explicitPartition ∨ l.getStateForMessage a b = .randPartition

/-- The direction is cut, and no message of it is under way. -/
structure Severed (l : Link μ) (a b : IpAddr) : Prop where
  cut : l.Cut a b
  none_sent : ∀ s ∈ l.sent, ¬ (s.src.ip = a ∧ s.dst.ip = b)

end Link

/-- Is the message from `a` to `b`? -/
def Envelope.goes (a b : IpAddr) (e : Envelope μ) : Bool := e.src.ip = a ∧ e.dst.ip = b

def enteredFrom (a b : IpAddr) (tr : List (Event μ)) : List (Envelope μ) :=
  tr.filterMap fun
    | .entered e => if e.goes a b then some e else none
    | _ => none

def droppedFrom (a b : IpAddr) (tr : List (Event μ)) : List (Envelope μ) :=
  tr.filterMap fun
    | .dropped e => if e.goes a b then some e else none
    | _ => none

/-- Every message that entered from `a` to `b` was dropped. -/
def AllDropped (a b : IpAddr) (tr : List (Event μ)) : Prop := enteredFrom a b tr = droppedFrom a b tr

theorem AllDropped.append {a b : IpAddr} {tr tr' : List (Event μ)} (h : AllDropped a b tr)
    (h' : AllDropped a b tr') : AllDropped a b (tr ++ tr') := by
  unfold AllDropped enteredFrom droppedFrom at *
  rw [List.filterMap_append, List.filterMap_append, h, h']

/-- Drops of messages of other directions. -/
theorem AllDropped.of_drops {a b : IpAddr} {ss : List (Sent μ)}
    (h : ∀ s ∈ ss, ¬ (s.src.ip = a ∧ s.dst.ip = b)) :
    AllDropped a b (ss.map fun s => .dropped s.envelope) := by
  have h1 : enteredFrom a b (ss.map fun s => .dropped s.envelope) = [] := by
    refine List.filterMap_eq_nil_iff.mpr fun ev hev => ?_
    obtain ⟨s, -, rfl⟩ := List.mem_map.mp hev
    rfl
  have h2 : droppedFrom a b (ss.map fun s => .dropped s.envelope) = [] := by
    refine List.filterMap_eq_nil_iff.mpr fun ev hev => ?_
    obtain ⟨s, hs, rfl⟩ := List.mem_map.mp hev
    exact if_neg (by rw [Envelope.goes, decide_eq_true_eq]; exact h s hs)
  exact h1.trans h2.symm

/-- Moves to the second queue are no drops. -/
theorem AllDropped.of_moves {a b : IpAddr} (ps : List (Envelope μ × Nat)) :
    AllDropped a b (ps.map fun p => .ready p.1 p.2) := by
  have h1 : enteredFrom a b (ps.map fun p => .ready p.1 p.2) = [] := by
    refine List.filterMap_eq_nil_iff.mpr fun ev hev => ?_
    obtain ⟨p, -, rfl⟩ := List.mem_map.mp hev
    rfl
  have h2 : droppedFrom a b (ps.map fun p => .ready p.1 p.2) = [] := by
    refine List.filterMap_eq_nil_iff.mpr fun ev hev => ?_
    obtain ⟨p, -, rfl⟩ := List.mem_map.mp hev
    rfl
  exact h1.trans h2.symm

theorem Link.getStateForMessage_setState (l : Link μ) (source target a b : IpAddr)
    (state : State) : (l.setState source target state).getStateForMessage a b
      = if ipLt source target = ipLt a b then state else l.getStateForMessage a b := by
  unfold Link.setState Link.getStateForMessage
  cases ipLt source target <;> cases ipLt a b <;> rfl

namespace Link.Severed

variable {l : Link μ} {a b : IpAddr}

/-- The two directions' states, whichever of the two is meant. -/
theorem congr {l' : Link μ} (h : l.Severed a b) (h1 : l'.stateAB = l.stateAB)
    (h2 : l'.stateBA = l.stateBA) (h3 : ∀ s ∈ l'.sent, s ∈ l.sent) : l'.Severed a b := by
  refine ⟨?_, fun s hs => h.none_sent s (h3 s hs)⟩
  have hc := h.cut
  unfold Link.Cut getStateForMessage at *
  rw [h1, h2]
  exact hc

/-- A draw that is no repair leaves the direction cut. -/
theorem draw (h : l.Severed a b) {o : Outcome} (hcalm : l.repairs o = false) :
    (l.randPartitionOrRepair o).1.Severed a b ∧ AllDropped a b (l.randPartitionOrRepair o).2 := by
  unfold randPartitionOrRepair
  split
  · refine ⟨⟨Or.inr ?_, fun s hs => ?_⟩, AllDropped.of_drops h.none_sent⟩
    · unfold getStateForMessage
      split <;> rfl
    · cases hs
  · rw [if_neg (by rw [hcalm]; decide)]
    exact ⟨h, rfl⟩

/-- A message on a cut direction is dropped. -/
theorem enqueue (h : l.Severed a b) (o : Outcome) (e : Envelope μ) :
    (l.enqueue o e).1.Severed a b ∧ AllDropped a b (.entered e :: (l.enqueue o e).2) := by
  by_cases hgo : e.src.ip = a ∧ e.dst.ip = b
  · have hdrop : l.enqueue o e = (l, [.dropped e]) := by
      unfold Link.enqueue
      rw [hgo.1, hgo.2]
      rcases h.cut with hc | hc <;> rw [hc]
    rw [hdrop]
    refine ⟨h, ?_⟩
    simp [AllDropped, enteredFrom, droppedFrom, Envelope.goes, hgo]
  · have hgoes : e.goes a b = false := by simpa [Envelope.goes] using hgo
    have hpush : ∀ status, (Link.enqueue.push l e status).Severed a b := by
      intro status
      refine ⟨h.cut, fun s hs => ?_⟩
      rcases List.mem_append.mp hs with hs | hs
      · exact h.none_sent s hs
      · cases List.mem_singleton.mp hs
        exact hgo
    unfold Link.enqueue
    split
    · exact ⟨hpush _, by simp [AllDropped, enteredFrom, droppedFrom, hgoes]⟩
    · exact ⟨hpush _, by simp [AllDropped, enteredFrom, droppedFrom, hgoes]⟩
    · exact ⟨h, by simp [AllDropped, enteredFrom, droppedFrom, hgoes]⟩

theorem settled (h : l.Severed a b) : l.settled.Severed a b := by
  obtain ⟨f1, -, f3, f4⟩ := l.settled_fields
  refine h.congr f3 f4 fun s hs => ?_
  rw [f1] at hs
  exact List.mem_of_mem_filter hs

/-- **A send that draws no repair.** -/
theorem send (h : l.Severed a b) {o : Outcome} {e : Envelope μ} {l' : Link μ}
    {ev : List (Event μ)} (hcalm : l.repairs o = false)
    (hs : l.enqueueMessage o e = some (l', ev)) : l'.Severed a b ∧ AllDropped a b ev := by
  rw [enqueueMessage_eq] at hs
  cases hs
  obtain ⟨h1, d1⟩ := h.draw hcalm
  obtain ⟨h2, d2⟩ := h1.enqueue o e
  exact ⟨h2.settled, (d1.append d2).append (AllDropped.of_moves _)⟩

end Link.Severed

/-! ## 2. Runs of one direction -/

section
variable (receive : H → Envelope μ → H × Option μ)

/-- The answers of a delivery draw no repair, each in the state it is sent in. -/
def AnswersCalm (draw : Nat → Outcome) : List (Envelope μ) → H → Link μ → Prop
  | [], _, _ => True
  | e :: pending, host, l =>
    ((receive host e).2.isSome = true → l.repairs (draw pending.length) = false)
      ∧ ∀ r ∈ l.answer (draw pending.length) e (receive host e).2,
        AnswersCalm draw pending (receive host e).1 r.1

/-- No random repair is drawn while a direction is randomly partitioned. -/
def LinkOp.Calm (l : Link μ) : LinkOp μ H → Prop
  | .send o _ => l.repairs o = false
  | .deliver addr draw host => AnswersCalm receive draw (l.readyFor addr) host
      { l with deliverable := l.deliverable.insert addr [] }
  | _ => True

/-- The user does not undo the partition of `a` to `b`; of the two directions of the pair, the
other may be repaired. -/
def LinkOp.Leaves (a b : IpAddr) : LinkOp μ H → Prop
  | .repair | .hold | .release => False
  | .repairOneway source target => source = b ∧ target = a
  | _ => True

/-- Every call of a run meets a condition on the link it finds. -/
def Throughout (cond : Link μ → LinkOp μ H → Prop) : Link μ → List (LinkOp μ H) → Prop
  | _, [] => True
  | l, op :: ops => cond l op ∧ ∀ r ∈ l.step receive op, Throughout cond r.1 ops

variable {receive} {l l' : Link μ} {a b : IpAddr} {ev : List (Event μ)}

theorem Link.Severed.loop {addr : IpAddr} {draw : Nat → Outcome} :
    ∀ {pending : List (Envelope μ)} {host host' : H} {l l' : Link μ} {ev : List (Event μ)},
    l.Severed a b → AnswersCalm receive draw pending host l →
    Link.deliverLoop receive addr draw pending host l = some (l', host', ev) →
    l'.Severed a b ∧ AllDropped a b ev := by
  intro pending
  induction pending with
  | nil =>
    intro host host' l l' ev h _ hl
    cases hl
    exact ⟨h, rfl⟩
  | cons e pending ih =>
    intro host host' l l' ev h hcalm hl
    obtain ⟨⟨l1, answered⟩, h1, hl⟩ := Option.bind_eq_some_iff.mp hl
    obtain ⟨⟨l2, host2, events⟩, h2, hl⟩ := Option.bind_eq_some_iff.mp hl
    cases hl
    have hsev : l1.Severed a b ∧ AllDropped a b answered := by
      have hdraw := hcalm.1
      revert h1 hdraw
      cases (receive host e).2 with
      | none =>
        intro h1 _
        cases h1
        exact ⟨h, rfl⟩
      | some message => exact fun h1 hdraw => h.send (hdraw rfl) h1
    obtain ⟨h3, d3⟩ := ih hsev.1 (hcalm.2 _ h1) h2
    exact ⟨h3, hsev.2.append d3⟩

/-- What one call does to a direction that is cut. -/
theorem Link.Severed.step {op : LinkOp μ H} (hab : a ≠ b) (h : l.Severed a b)
    (hleave : op.Leaves a b) (hcalm : op.Calm receive l)
    (hs : l.step receive op = some (l', ev)) : l'.Severed a b ∧ AllDropped a b ev := by
  cases op with
  | send o e => exact h.send hcalm hs
  | tick now =>
    rw [Link.step, Link.tick, Link.processDeliverables_eq] at hs
    cases hs
    have hnow : Link.Severed { l with now := now } a b := h.congr rfl rfl fun _ hs => hs
    exact ⟨hnow.settled, AllDropped.of_moves _⟩
  | hold => exact absurd hleave id
  | release => exact absurd hleave id
  | repair => exact absurd hleave id
  | partition =>
    cases hs
    refine ⟨⟨Or.inl ?_, fun s hs => ?_⟩, AllDropped.of_drops h.none_sent⟩
    · unfold Link.getStateForMessage
      split <;> rfl
    · cases hs
  | partitionOneway source target =>
    cases hs
    obtain ⟨f1, -, -⟩ := l.setState_fields source target .explicitPartition
    have hset : (l.setState source target .explicitPartition).Severed a b := by
      refine ⟨?_, by rw [f1]; exact h.none_sent⟩
      unfold Link.Cut
      rw [Link.getStateForMessage_setState]
      split
      · exact Or.inl rfl
      · exact h.cut
    refine ⟨hset.congr rfl rfl fun s hs => ?_, AllDropped.of_drops fun s hs => ?_⟩
    · rw [f1]
      exact List.mem_of_mem_filter hs
    · exact h.none_sent s (List.mem_of_mem_filter hs)
  | repairOneway source target =>
    cases hs
    obtain ⟨f1, -, -⟩ := l.setState_fields source target .healthy
    refine ⟨⟨?_, fun s hs => h.none_sent s (by rwa [Link.repairOneway, f1] at hs)⟩, rfl⟩
    have hne : ipLt source target ≠ ipLt a b := by
      rw [hleave.1, hleave.2, ipLt_asymm hab]
      cases ipLt a b <;> decide
    unfold Link.Cut
    rw [Link.repairOneway, Link.getStateForMessage_setState, if_neg hne]
    exact h.cut
  | deliverSent i =>
    cases hs
    refine ⟨⟨h.cut, fun s hs => ?_⟩, rfl⟩
    obtain ⟨j, hj⟩ := List.mem_iff_getElem?.mp hs
    rw [Link.deliverSent, List.getElem?_modify] at hj
    obtain ⟨s', hs', rfl⟩ := Option.map_eq_some_iff.mp hj
    have := h.none_sent s' (List.mem_of_getElem? hs')
    split <;> exact this
  | deliver addr draw host =>
    obtain ⟨⟨l2, host2, ev2⟩, h2, hs⟩ := Option.map_eq_some_iff.mp hs
    cases hs
    have hdrain : Link.Severed { l with deliverable := l.deliverable.insert addr [] } a b :=
      h.congr rfl rfl fun _ hs => hs
    exact hdrain.loop hcalm h2

theorem Link.Severed.run (hab : a ≠ b) : ∀ {ops : List (LinkOp μ H)} {l l' : Link μ}
    {ev : List (Event μ)}, l.Severed a b →
    Throughout receive (fun l op => op.Leaves a b ∧ op.Calm receive l) l ops →
    l.run receive ops = some (l', ev) → l'.Severed a b ∧ AllDropped a b ev := by
  intro ops
  induction ops with
  | nil =>
    intro l l' ev h _ hr
    cases hr
    exact ⟨h, rfl⟩
  | cons op ops ih =>
    intro l l' ev h hall hr
    obtain ⟨⟨l1, ev1⟩, h1, hr⟩ := Option.bind_eq_some_iff.mp hr
    obtain ⟨⟨l2, ev2⟩, h2, hr⟩ := Option.bind_eq_some_iff.mp hr
    cases hr
    obtain ⟨s1, d1⟩ := h.step hab hall.1.1 hall.1.2 h1
    obtain ⟨s2, d2⟩ := ih s1 (hall.2 _ h1) h2
    exact ⟨s2, d1.append d2⟩

/-- **An explicit partition persists.**  Once `a` to `b` was partitioned, in both directions or in
this one, every message sent from `a` to `b` is dropped, in every run in which the user does not
undo the partition and no send draws a random repair while a direction is randomly partitioned. -/
theorem explicit_cut_persists (receive : H → Envelope μ → H × Option μ) {a b : IpAddr}
    (hab : a ≠ b) (l₀ : Link μ) (cut : Link μ)
    (hcut : cut = l₀.explicitPartition.1 ∨ cut = (l₀.partitionOneway a b).1)
    (ops : List (LinkOp μ H))
    (hall : Throughout receive (fun l op => op.Leaves a b ∧ op.Calm receive l) cut ops)
    {l : Link μ} {tr : List (Event μ)} (hrun : cut.run receive ops = some (l, tr)) :
    l.Cut a b ∧ AllDropped a b tr := by
  have hsev : cut.Severed a b := by
    rcases hcut with rfl | rfl
    · refine ⟨Or.inl ?_, fun s hs => ?_⟩
      · unfold Link.getStateForMessage
        split <;> rfl
      · cases hs
    · refine ⟨Or.inl ?_, fun s hs hgo => ?_⟩
      · exact (l₀.getStateForMessage_setState a b a b .explicitPartition).trans (if_pos rfl)
      · have := List.of_mem_filter hs
        simp [hgo.1] at this
  obtain ⟨hl, hd⟩ := hsev.run hab hall hrun
  exact ⟨hl.cut, hd⟩

end

/-! ### A one-way partition on a lossy link -/

/-- A link whose direction from host 1 to host 2 was partitioned. -/
def onewayCut : Link Nat := (Link.partitionOneway (Link.new 0) (.v4 1) (.v4 2)).1

/-- A message from host 2, whose send breaks the link at random, and then one from host 1, whose
send repairs it or not. -/
def lossySends (repair : Bool) : List (LinkOp Nat Unit) :=
  let first : SocketAddr := ⟨.v4 1, 1000⟩
  let second : SocketAddr := ⟨.v4 2, 80⟩
  [.send ⟨true, false, 0⟩ ⟨second, first, 0⟩, .send ⟨false, repair, 0⟩ ⟨first, second, 1⟩]

/-- A host that answers nothing. -/
def silent (_ : Unit) (_ : Envelope Nat) : Unit × Option Nat := ((), none)

theorem explicit_cut_persists_lossy : ∃ l tr, onewayCut.run silent (lossySends false) = some (l, tr)
    ∧ (enteredFrom (.v4 1) (.v4 2) tr).length = 1 ∧ l.Cut (.v4 1) (.v4 2)
    ∧ AllDropped (.v4 1) (.v4 2) tr := by
  have hall : Throughout silent (fun l op => op.Leaves (.v4 1) (.v4 2) ∧ op.Calm silent l)
      onewayCut (lossySends false) := by
    refine ⟨⟨trivial, ?_⟩, fun r hr => ⟨⟨trivial, ?_⟩, fun _ _ => trivial⟩⟩
    · simp only [LinkOp.Calm]
      decide
    · rw [Link.step, Link.enqueueMessage_eq] at hr
      cases hr
      simp only [LinkOp.Calm]
      decide
  have hval : (onewayCut.run silent (lossySends false)).map (fun r =>
      (enteredFrom (.v4 1) (.v4 2) r.2).length) = some 1 := by
    decide
  obtain ⟨⟨l, tr⟩, hrun, hlen⟩ := Option.map_eq_some_iff.mp hval
  exact ⟨l, tr, hrun, hlen,
    explicit_cut_persists silent (by decide) (Link.new 0) onewayCut (Or.inr rfl) _ hall hrun⟩

/-- **A random repair ends an explicit partition.**  No call undoes the partition of 1 to 2, but the
message from 1 to 2 is not dropped: it is ready for host 2. -/
theorem oneway_cut_ends_by_random_repair : ∃ l tr,
    onewayCut.run silent (lossySends true) = some (l, tr)
      ∧ (∀ op ∈ lossySends true, op.Leaves (.v4 1) (.v4 2))
      ∧ (enteredFrom (.v4 1) (.v4 2) tr).length = 1 ∧ droppedFrom (.v4 1) (.v4 2) tr = []
      ∧ (l.readyFor (.v4 2)).length = 1 := by
  have hval : (onewayCut.run silent (lossySends true)).map (fun r =>
      ((enteredFrom (.v4 1) (.v4 2) r.2).length, droppedFrom (.v4 1) (.v4 2) r.2,
        (r.1.readyFor (.v4 2)).length)) = some (1, [], 1) := by
    decide
  obtain ⟨⟨l, tr⟩, hrun, heq⟩ := Option.map_eq_some_iff.mp hval
  simp only [Prod.mk.injEq] at heq
  refine ⟨l, tr, hrun, fun op hop => ?_, heq.1, heq.2.1, heq.2.2⟩
  simp only [lossySends, List.mem_cons, List.not_mem_nil, or_false] at hop
  rcases hop with rfl | rfl <;> trivial

/-! ## 3. Both directions -/

/-- A call that neither repairs nor releases, nor delivers a message by hand; deliveries are to one
of the two hosts. -/
def LinkOp.KeepsCut (a b : IpAddr) : LinkOp μ H → Prop
  | .repair | .repairOneway .. | .release | .deliverSent _ => False
  | .deliver addr _ _ => addr = a ∨ addr = b
  | _ => True

/-- Nothing can move: both directions are partitioned or held, what is on the link is held, and
nothing waits for either host. -/
structure Link.Dead (l : Link μ) (a b : IpAddr) : Prop where
  stateAB : l.stateAB = .explicitPartition ∨ l.stateAB = .hold
  stateBA : l.stateBA = .explicitPartition ∨ l.stateBA = .hold
  held : ∀ s ∈ l.sent, s.status = .hold
  ready_a : l.readyFor a = []
  ready_b : l.readyFor b = []

/-- A message was handed to a host. -/
def Event.isDelivered : Event μ → Bool
  | .delivered .. => true
  | _ => false

namespace Link.Dead

variable {l : Link μ} {a b : IpAddr}

/-- No draw changes a link both of whose directions are cut. -/
theorem draw (h : l.Dead a b) (o : Outcome) : l.randPartitionOrRepair o = (l, []) := by
  have h1 : l.partitions o = false := by
    rcases h.stateAB with h1 | h1 <;> rcases h.stateBA with h2 | h2 <;>
      simp [partitions, h1, h2]
  have h2 : l.repairs o = false := by
    rcases h.stateAB with h2 | h2 <;> rcases h.stateBA with h3 | h3 <;>
      simp [repairs, h2, h3]
  rw [randPartitionOrRepair, h1, h2]
  rfl

theorem settled (h : l.Dead a b) : l.settled = l ∧ Link.due l.now l.sent = [] := by
  have hnone : ∀ s ∈ l.sent, dueTime l.now s = none := by
    intro s hs
    rw [dueTime, h.held s hs]
  have hdue : Link.due l.now l.sent = [] := by
    refine List.filterMap_eq_nil_iff.mpr fun s hs => ?_
    rw [hnone s hs]
    rfl
  refine ⟨?_, hdue⟩
  have hwait : Link.waiting l.now l.sent = l.sent :=
    List.filter_eq_self.mpr fun s hs => by rw [hnone s hs]; rfl
  rw [Link.settled, hdue, hwait]
  rfl

/-- A message is dropped or held. -/
theorem enqueue (h : l.Dead a b) (o : Outcome) (e : Envelope μ) :
    (l.enqueue o e).1.Dead a b ∧ ∀ ev ∈ (l.enqueue o e).2, ev.isDelivered = false := by
  have hstate : l.getStateForMessage e.src.ip e.dst.ip = .explicitPartition
      ∨ l.getStateForMessage e.src.ip e.dst.ip = .hold := by
    unfold getStateForMessage
    split
    · exact h.stateAB
    · exact h.stateBA
  unfold Link.enqueue
  rcases hstate with hs | hs <;> rw [hs]
  · refine ⟨h, fun ev hev => ?_⟩
    cases List.mem_singleton.mp hev
    rfl
  · refine ⟨⟨h.stateAB, h.stateBA, fun s hs => ?_, h.ready_a, h.ready_b⟩, fun ev hev => by cases hev⟩
    rcases List.mem_append.mp hs with hs | hs
    · exact h.held s hs
    · cases List.mem_singleton.mp hs
      rfl

end Link.Dead

section
variable {receive : H → Envelope μ → H × Option μ} {l l' : Link μ} {a b : IpAddr}
  {ev : List (Event μ)}

theorem Link.Dead.step {op : LinkOp μ H} (h : l.Dead a b) (hop : op.KeepsCut a b)
    (hs : l.step receive op = some (l', ev)) :
    l'.Dead a b ∧ ∀ e ∈ ev, e.isDelivered = false := by
  have hdrops : ∀ ss : List (Sent μ), ∀ e ∈ ss.map fun s => (Event.dropped s.envelope),
      e.isDelivered = false := by
    intro ss e he
    obtain ⟨s, -, rfl⟩ := List.mem_map.mp he
    rfl
  cases op with
  | send o e =>
    obtain ⟨h1, hev⟩ := h.enqueue o e
    obtain ⟨h2, h3⟩ := h1.settled
    rw [Link.step, Link.enqueueMessage_eq, Link.queued, h.draw, h2, h3] at hs
    cases hs
    refine ⟨h1, fun x hx => ?_⟩
    simp only [List.nil_append, List.map_nil, List.append_nil, List.mem_cons] at hx
    rcases hx with rfl | hx
    · rfl
    · exact hev x hx
  | tick now =>
    have hnow : Link.Dead { l with now := now } a b :=
      ⟨h.stateAB, h.stateBA, h.held, h.ready_a, h.ready_b⟩
    obtain ⟨h2, h3⟩ := hnow.settled
    rw [Link.step, Link.tick, Link.processDeliverables_eq, h2] at hs
    simp only [h3, List.map_nil] at hs
    cases hs
    exact ⟨hnow, fun x hx => by cases hx⟩
  | hold =>
    cases hs
    refine ⟨⟨Or.inr rfl, Or.inr rfl, fun s hs => ?_, h.ready_a, h.ready_b⟩, fun x hx => by cases hx⟩
    obtain ⟨s', -, rfl⟩ := List.mem_map.mp hs
    rfl
  | partition =>
    cases hs
    exact ⟨⟨Or.inl rfl, Or.inl rfl, fun s hs => (by cases hs), h.ready_a, h.ready_b⟩,
      hdrops l.sent⟩
  | partitionOneway source target =>
    cases hs
    obtain ⟨f1, f2, -⟩ := l.setState_fields source target .explicitPartition
    refine ⟨⟨?_, ?_, fun s hs => h.held s (List.mem_of_mem_filter hs), ?_, ?_⟩, hdrops _⟩
    · unfold Link.setState
      split
      · exact Or.inl rfl
      · exact h.stateAB
    · unfold Link.setState
      split
      · exact h.stateBA
      · exact Or.inl rfl
    · unfold Link.readyFor
      dsimp only
      rw [f2]
      exact h.ready_a
    · unfold Link.readyFor
      dsimp only
      rw [f2]
      exact h.ready_b
  | deliver addr draw host =>
    have hnone : l.readyFor addr = [] := by
      rcases hop with rfl | rfl
      · exact h.ready_a
      · exact h.ready_b
    rw [Link.step, Link.deliverMessages, hnone] at hs
    cases hs
    have hready : ∀ g, l.readyFor g = [] →
        ({ l with deliverable := l.deliverable.insert addr [] } : Link μ).readyFor g = [] := by
      intro g hg
      unfold Link.readyFor at *
      rw [IndexMap.get?_insert]
      split
      · rfl
      · exact hg
    exact ⟨⟨h.stateAB, h.stateBA, h.held, hready a h.ready_a, hready b h.ready_b⟩,
      fun x hx => by cases hx⟩
  | repair => exact absurd hop id
  | repairOneway => exact absurd hop id
  | release => exact absurd hop id
  | deliverSent => exact absurd hop id

theorem Link.Dead.run : ∀ {ops : List (LinkOp μ H)} {l l' : Link μ} {ev : List (Event μ)},
    l.Dead a b → (∀ op ∈ ops, op.KeepsCut a b) → l.run receive ops = some (l', ev) →
      ∀ e ∈ ev, e.isDelivered = false := by
  intro ops
  induction ops with
  | nil =>
    intro l l' ev _ _ hr
    cases hr
    intro e he
    cases he
  | cons op ops ih =>
    intro l l' ev h hops hr
    obtain ⟨⟨l1, ev1⟩, h1, hr⟩ := Option.bind_eq_some_iff.mp hr
    obtain ⟨⟨l2, ev2⟩, h2, hr⟩ := Option.bind_eq_some_iff.mp hr
    cases hr
    obtain ⟨hd, hev⟩ := h.step (hops op List.mem_cons_self) h1
    intro e he
    rcases List.mem_append.mp he with he | he
    · exact hev e he
    · exact ih hd (fun op hop => hops op (List.mem_cons_of_mem _ hop)) h2 e he

/-- Some message is waiting for a host: running the host delivers it. -/
theorem delivered_of_ready (receive : H → Envelope μ → H × Option μ) (host : H)
    (draw : Nat → Outcome) (addr : IpAddr) (h : l.readyFor addr ≠ []) :
    ∃ l' ev, l.run receive [.deliver addr draw host] = some (l', ev)
      ∧ ∃ e ∈ ev, e.isDelivered = true := by
  obtain ⟨⟨l1, ev1⟩, h1⟩ := step_isSome receive l (.deliver addr draw host)
  refine ⟨l1, ev1 ++ [], ?_, ?_⟩
  · rw [Link.run, h1]
    rfl
  · obtain ⟨e, pending, hp⟩ := List.exists_cons_of_ne_nil h
    obtain ⟨⟨l2, host2, ev2⟩, h2, heq⟩ := Option.map_eq_some_iff.mp h1
    cases heq
    rw [Link.deliverMessages, hp] at h2
    obtain ⟨⟨l3, answered⟩, -, h2⟩ := Option.bind_eq_some_iff.mp h2
    obtain ⟨⟨l4, host4, events⟩, -, h2⟩ := Option.bind_eq_some_iff.mp h2
    cases h2
    exact ⟨_, List.mem_append_left _ List.mem_cons_self, rfl⟩

end

/-- **A partition or a hold cuts the link exactly if nothing waits for a host.**  For every link
between `a` and `b`: no run after the call delivers a message, as long as the user neither repairs
nor releases nor delivers by hand, if and only if no message was waiting for `a` or for `b`. -/
theorem cut_delivers_nothing_iff (receive : H → Envelope μ → H × Option μ) (host : H)
    (a b : IpAddr) (l₀ cut : Link μ) (hcut : cut = l₀.explicitPartition.1 ∨ cut = l₀.hold) :
    (∀ ops : List (LinkOp μ H), (∀ op ∈ ops, op.KeepsCut a b) →
      ∀ l tr, cut.run receive ops = some (l, tr) → ∀ e ∈ tr, e.isDelivered = false)
      ↔ l₀.readyFor a = [] ∧ l₀.readyFor b = [] := by
  have hready : ∀ g, cut.readyFor g = l₀.readyFor g := by
    intro g
    rcases hcut with rfl | rfl <;> rfl
  constructor
  · intro hall
    have hone : ∀ addr, addr = a ∨ addr = b → l₀.readyFor addr = [] := by
      intro addr haddr
      by_contra hne
      rw [← hready] at hne
      obtain ⟨l, tr, hrun, e, he, hdel⟩ := delivered_of_ready receive host
        (fun _ => ⟨false, false, 0⟩) addr hne
      have := hall [.deliver addr (fun _ => ⟨false, false, 0⟩) host]
        (fun op hop => by cases List.mem_singleton.mp hop; exact haddr) l tr hrun e he
      exact absurd (hdel.symm.trans this) (by decide)
    exact ⟨hone a (Or.inl rfl), hone b (Or.inr rfl)⟩
  · rintro ⟨ha, hb⟩ ops hops l tr hrun
    have hdead : cut.Dead a b := by
      rcases hcut with rfl | rfl
      · exact ⟨Or.inl rfl, Or.inl rfl, fun s hs => (by cases hs), ha, hb⟩
      · refine ⟨Or.inr rfl, Or.inr rfl, fun s hs => ?_, ha, hb⟩
        obtain ⟨s', -, rfl⟩ := List.mem_map.mp hs
        rfl
    exact hdead.run hops hrun

/-- A message from host 1 is due, and host 2 was not run since. -/
def dueMessage : List (LinkOp Nat Unit) :=
  [.send ⟨false, false, 0⟩ ⟨⟨.v4 1, 1000⟩, ⟨.v4 2, 80⟩, 7⟩]

theorem cut_delivers_nothing_iff_fresh :
    ((Link.new 0 : Link Nat).readyFor (.v4 1) = [] ∧ (Link.new 0 : Link Nat).readyFor (.v4 2) = [])
      ∧ ∀ ops : List (LinkOp Nat Unit), (∀ op ∈ ops, op.KeepsCut (.v4 1) (.v4 2)) →
        ∀ l tr, (Link.new 0).hold.run silent ops = some (l, tr) →
          ∀ e ∈ tr, e.isDelivered = false :=
  ⟨⟨rfl, rfl⟩,
    (cut_delivers_nothing_iff silent () (.v4 1) (.v4 2) (Link.new 0) _ (Or.inr rfl)).mpr ⟨rfl, rfl⟩⟩

/-- **A message that is due survives the partition and the hold**: it is delivered after either. -/
theorem due_message_crosses_the_cut : ∃ l tr l₁ tr₁ l₂ tr₂,
    (Link.new 0).run silent dueMessage = some (l, tr)
      ∧ l.explicitPartition.1.run silent [.deliver (.v4 2) (fun _ => ⟨false, false, 0⟩) ()]
        = some (l₁, tr₁)
      ∧ l.hold.run silent [.deliver (.v4 2) (fun _ => ⟨false, false, 0⟩) ()] = some (l₂, tr₂)
      ∧ (∃ e ∈ tr₁, e.isDelivered = true) ∧ ∃ e ∈ tr₂, e.isDelivered = true := by
  have hval : ((Link.new 0).run silent dueMessage).map (fun r => (r.1.readyFor (.v4 2)).isEmpty)
      = some false := by
    decide
  obtain ⟨⟨l, tr⟩, hrun, hne⟩ := Option.map_eq_some_iff.mp hval
  have hready : l.readyFor (.v4 2) ≠ [] := by
    intro h
    rw [h] at hne
    cases hne
  obtain ⟨l1, tr1, h1, hd1⟩ := delivered_of_ready (l := l.explicitPartition.1) silent ()
    (fun _ => ⟨false, false, 0⟩) (.v4 2) hready
  obtain ⟨l2, tr2, h2, hd2⟩ := delivered_of_ready (l := l.hold) silent ()
    (fun _ => ⟨false, false, 0⟩) (.v4 2) hready
  exact ⟨l, tr, l1, tr1, l2, tr2, hrun, h1, h2, hd1, hd2⟩

end Turmoil.Top
