/-
# How late a message is delivered

A message is due when its delay is over.  It becomes ready at the first tick after that, and is
handed over when its host is served next.  Where the host is served after every tick, and no tick
moves the clock by more than `late`, nothing is handed over more than `late` after it was due
(`OnTime.delivered`), and what still waits when the host was served is due only now.

The argument.  No message of the first queue is overdue (`OnTime.sent`), so what a call moves to the
second queue is due just then, and what a tick moves is overdue by at most the tick.  `Timely` is what
a trace says of the messages that are ready: those in the hand of `deliver_messages` may be overdue by
a tick, the others by `slack`, which a tick raises to a tick and a delivery takes back to nothing.
-/
import Turmoil.Top.Delivery

namespace Turmoil.Top

open Turmoil.Net (IpAddr SocketAddr)

variable {μ H : Type}

/-! ## 1. What a trace says -/

/-- The messages that are ready for a host and not handed over yet: of these the first `hand` are in
the hand of `deliver_messages`. -/
structure Timely (late slack hand : Nat) (host : IpAddr) (now : Nat) (tr : List (Event μ)) : Prop where
  room : (deliveredTo host tr).length + hand ≤ (readyTo host tr).length
  delivered : List.Forall₂ (fun r d => d.2 ≤ r.2 + late)
    ((readyTo host tr).take (deliveredTo host tr).length) (deliveredTo host tr)
  inHand : ∀ r ∈ ((readyTo host tr).drop (deliveredTo host tr).length).take hand, now ≤ r.2 + late
  waiting : ∀ r ∈ (readyTo host tr).drop ((deliveredTo host tr).length + hand), now ≤ r.2 + slack

namespace Timely

variable {late slack hand now now' : Nat} {host : IpAddr} {tr ev : List (Event μ)}

theorem nil : Timely (μ := μ) late slack 0 host now [] where
  room := Nat.le_refl _
  delivered := .nil
  inHand _ hr := by cases hr
  waiting _ hr := by cases hr

/-- More messages become ready, and none is handed over. -/
theorem grow (h : Timely late slack hand host now tr)
    (hready : ∀ r ∈ readyTo host ev, now ≤ r.2 + slack) (hnone : deliveredTo host ev = []) :
    Timely late slack hand host now (tr ++ ev) := by
  have hroom := h.room
  constructor
  · rw [readyTo_append, deliveredTo_append, hnone, List.append_nil, List.length_append]
    omega
  · rw [readyTo_append, deliveredTo_append, hnone, List.append_nil,
      List.take_append_of_le_length (by omega)]
    exact h.delivered
  · intro r hr
    rw [readyTo_append, deliveredTo_append, hnone, List.append_nil,
      List.drop_append_of_le_length (by omega),
      List.take_append_of_le_length (by rw [List.length_drop]; omega)] at hr
    exact h.inHand r hr
  · intro r hr
    rw [readyTo_append, deliveredTo_append, hnone, List.append_nil,
      List.drop_append_of_le_length hroom] at hr
    rcases List.mem_append.mp hr with hr | hr
    · exact h.waiting r hr
    · exact hready r hr

/-- The first message in hand is handed over. -/
theorem handOver (h : Timely late slack (hand + 1) host now tr) (e : Envelope μ) :
    Timely late slack hand host now (tr ++ [.delivered host e now]) := by
  have hroom := h.room
  have hlt : (deliveredTo host tr).length < (readyTo host tr).length := by omega
  have hdel : deliveredTo host [.delivered host e now] = [(e, now)] := by simp [deliveredTo]
  have hready : readyTo host [.delivered host e now] = [] := rfl
  have hdrop := List.drop_eq_getElem_cons hlt
  constructor
  · rw [readyTo_append, deliveredTo_append, hdel, hready, List.append_nil, List.length_append,
      List.length_singleton]
    omega
  · rw [readyTo_append, deliveredTo_append, hdel, hready, List.append_nil, List.length_append,
      List.length_singleton, List.take_succ_eq_append_getElem hlt]
    refine List.rel_append h.delivered (.cons (h.inHand _ ?_) .nil)
    rw [hdrop, List.take_succ_cons]
    exact List.mem_cons_self ..
  · intro r hr
    rw [readyTo_append, deliveredTo_append, hdel, hready, List.append_nil, List.length_append,
      List.length_singleton] at hr
    refine h.inHand r ?_
    rw [hdrop, List.take_succ_cons]
    exact List.mem_cons_of_mem _ hr
  · intro r hr
    rw [readyTo_append, deliveredTo_append, hdel, hready, List.append_nil, List.length_append,
      List.length_singleton] at hr
    refine h.waiting r ?_
    rwa [Nat.add_right_comm] at hr

/-- The clock moves by at most `late`, from a state in which nothing is overdue. -/
theorem tick (h : Timely late 0 0 host now tr) (hnow : now' ≤ now + late) :
    Timely late late 0 host now' tr where
  room := h.room
  delivered := h.delivered
  inHand _ hr := by
    rw [List.take_zero] at hr
    cases hr
  waiting r hr := by
    have := h.waiting r hr
    omega

/-- All that is ready is taken in hand. -/
theorem take (h : Timely late slack 0 host now tr) (hslack : slack ≤ late)
    (hhand : (readyTo host tr).length = (deliveredTo host tr).length + hand) :
    Timely late 0 hand host now tr where
  room := Nat.le_of_eq hhand.symm
  delivered := h.delivered
  inHand r hr := by
    have := h.waiting r (List.mem_of_mem_take hr)
    omega
  waiting r hr := by
    rw [← hhand, List.drop_length] at hr
    cases hr

theorem weaken (h : Timely late slack hand host now tr) {slack' : Nat} (hle : slack ≤ slack') :
    Timely late slack' hand host now tr :=
  { h with waiting := fun r hr => Nat.le_trans (h.waiting r hr) (Nat.add_le_add_left hle _) }

end Timely

/-! ## 2. One call -/

/-- No message of the first queue is overdue. -/
def Link.Fresh (l : Link μ) (slack : Nat) : Prop :=
  ∀ s ∈ l.sent, ∀ time, s.status = .deliverAfter time → l.now ≤ time + slack

/-- What is known of a link and its events about the messages for one host. -/
structure OnTime (late slack hand : Nat) (host : IpAddr) (l : Link μ) (tr : List (Event μ)) : Prop where
  sent : l.Fresh 0
  timely : Timely late slack hand host l.now tr

namespace OnTime

variable {late slack hand : Nat} {host : IpAddr} {l l' : Link μ} {tr ev : List (Event μ)}

/-- What `process_deliverables` moves. -/
theorem due_status {now : Nat} {ss : List (Sent μ)} {r : Envelope μ × Nat}
    (hr : r ∈ Link.due now ss) : ∃ s ∈ ss, s.status = .deliverAfter r.2 := by
  obtain ⟨s, hs, hdue⟩ := List.mem_filterMap.mp hr
  obtain ⟨time, htime, rfl⟩ := Option.map_eq_some_iff.mp hdue
  refine ⟨s, hs, ?_⟩
  unfold Link.dueTime at htime
  split at htime
  · rename_i hst
    split at htime
    · cases htime
      exact hst
    · cases htime
  · cases htime

/-- **`process_deliverables`**: what is left is not due, what moves is overdue by `slack`. -/
theorem process (h : Timely late slack hand host l.now tr) (hl : l.Fresh slack) :
    OnTime late slack hand host l.settled
      (tr ++ (Link.due l.now l.sent).map fun p => .ready p.1 p.2) := by
  obtain ⟨f1, f2, -, -⟩ := l.settled_fields
  have hready : ∀ r ∈ readyTo host ((Link.due l.now l.sent).map fun p => .ready p.1 p.2),
      l.now ≤ r.2 + slack := by
    intro r hr
    rw [(moves host _).2.2.2] at hr
    obtain ⟨s, hs, hst⟩ := due_status (List.mem_of_mem_filter hr)
    exact hl s hs _ hst
  refine ⟨fun s hs time htime => ?_, ?_⟩
  · rw [f1] at hs
    have hwait := List.of_mem_filter hs
    rw [f2]
    by_contra hlt
    rw [Link.dueTime, htime] at hwait
    simp only [if_pos (show time ≤ l.now by omega)] at hwait
    cases hwait
  · rw [f2]
    exact h.grow hready (moves host _).2.2.1

theorem fresh_release (h : l.Fresh 0) : l.release.Fresh 0 := by
  intro s hs time htime
  obtain ⟨s₀, hs₀, rfl⟩ := List.mem_map.mp hs
  cases hst : s₀.status with
  | hold =>
    simp only [hst, Sent.deliver, DeliveryStatus.deliverAfter.injEq] at htime
    exact Nat.le_of_eq htime
  | deliverAfter t =>
    simp only [hst, DeliveryStatus.deliverAfter.injEq] at htime
    rw [← htime]
    exact h s₀ hs₀ t hst

/-- The draw, and the message that joins: nothing of it is overdue. -/
theorem fresh_queued (h : l.Fresh 0) (o : Outcome) (e : Envelope μ) :
    (l.queued o e).Fresh 0 ∧ (l.queued o e).now = l.now := by
  obtain ⟨m, hm, hfresh, hnow⟩ : ∃ m, (l.randPartitionOrRepair o).1 = m ∧ m.Fresh 0
      ∧ m.now = l.now := by
    refine ⟨_, rfl, ?_⟩
    unfold Link.randPartitionOrRepair
    split
    · exact ⟨fun s hs => absurd hs List.not_mem_nil, rfl⟩
    · split
      · exact ⟨fresh_release h, rfl⟩
      · exact ⟨h, rfl⟩
  have hjoin : ∀ status, (∀ time, status = .deliverAfter time → m.now ≤ time) →
      (Link.enqueue.push m e status).Fresh 0 := by
    intro status hstatus s hs time htime
    rcases List.mem_append.mp hs with hs | hs
    · exact hfresh s hs time htime
    · cases List.mem_singleton.mp hs
      exact hstatus time htime
  rw [Link.queued, hm, ← hnow]
  unfold Link.enqueue
  split
  · refine ⟨hjoin _ fun time htime => ?_, rfl⟩
    cases htime
    exact Nat.le_add_right _ _
  · exact ⟨hjoin _ (fun time htime => by cases htime), rfl⟩
  · exact ⟨hfresh, rfl⟩

/-- Events that are neither moves nor deliveries. -/
theorem quiet_events (l : Link μ) (o : Outcome) (e : Envelope μ) (host : IpAddr) :
    readyTo host ((l.randPartitionOrRepair o).2
        ++ .entered e :: ((l.randPartitionOrRepair o).1.enqueue o e).2) = []
      ∧ deliveredTo host ((l.randPartitionOrRepair o).2
        ++ .entered e :: ((l.randPartitionOrRepair o).1.enqueue o e).2) = [] := by
  have hdraw : readyTo host (l.randPartitionOrRepair o).2 = []
      ∧ deliveredTo host (l.randPartitionOrRepair o).2 = [] := by
    unfold Link.randPartitionOrRepair
    split
    · have hd := drops host (l.sent.map Sent.envelope)
      rw [List.map_map] at hd
      exact ⟨hd.2.1, hd.2.2.1⟩
    · split <;> exact ⟨rfl, rfl⟩
  have henq : ∀ m : Link μ, readyTo host (.entered e :: (m.enqueue o e).2) = []
      ∧ deliveredTo host (.entered e :: (m.enqueue o e).2) = [] := by
    intro m
    unfold Link.enqueue
    split <;> exact ⟨rfl, rfl⟩
  rw [readyTo_append, deliveredTo_append, hdraw.1, hdraw.2, (henq _).1, (henq _).2]
  exact ⟨rfl, rfl⟩

theorem send (h : OnTime late slack hand host l tr) {o : Outcome} {e : Envelope μ}
    (hs : l.enqueueMessage o e = some (l', ev)) : OnTime late slack hand host l' (tr ++ ev) := by
  rw [Link.enqueueMessage_eq] at hs
  cases hs
  obtain ⟨hfresh, hnow⟩ := fresh_queued h.sent o e
  obtain ⟨hready, hnone⟩ := quiet_events l o e host
  have hquiet : Timely late slack hand host l.now (tr ++ _) :=
    h.timely.grow (fun r hr => by rw [hready] at hr; cases hr) hnone
  rw [← List.append_assoc]
  exact process (by rw [hnow]; exact hquiet) fun s hs time htime =>
    Nat.le_trans (hfresh s hs time htime) (Nat.le_add_right _ _)

theorem answer (h : OnTime late slack hand host l tr) {o : Outcome} {e : Envelope μ}
    {reply : Option μ} (ha : l.answer o e reply = some (l', ev)) :
    OnTime late slack hand host l' (tr ++ ev) := by
  cases reply with
  | none =>
    cases ha
    rw [List.append_nil]
    exact h
  | some message => exact h.send ha

/-- A call that neither ticks nor delivers, and leaves nothing overdue. -/
theorem quiet (h : OnTime late slack hand host l tr) (hsent : l'.Fresh 0) (hnow : l'.now = l.now)
    (hready : readyTo host ev = []) (hnone : deliveredTo host ev = []) :
    OnTime late slack hand host l' (tr ++ ev) where
  sent := hsent
  timely := by
    rw [hnow]
    exact h.timely.grow (fun r hr => by rw [hready] at hr; cases hr) hnone

section
variable {receive : H → Envelope μ → H × Option μ}

/-- The loop of `deliver_messages`, for this host. -/
theorem loop {draw : Nat → Outcome} : ∀ {pending : List (Envelope μ)} {state state' : H}
    {l l' : Link μ} {tr ev : List (Event μ)}, OnTime late slack pending.length host l tr →
    Link.deliverLoop receive host draw pending state l = some (l', state', ev) →
    OnTime late slack 0 host l' (tr ++ ev) := by
  intro pending
  induction pending with
  | nil =>
    intro state state' l l' tr ev h hl
    cases hl
    rw [List.append_nil]
    exact h
  | cons e pending ih =>
    intro state state' l l' tr ev h hl
    obtain ⟨⟨l1, answered⟩, h1, hl⟩ := Option.bind_eq_some_iff.mp hl
    obtain ⟨⟨l2, state2, events⟩, h2, hl⟩ := Option.bind_eq_some_iff.mp hl
    cases hl
    have hover : OnTime late slack pending.length host l (tr ++ [.delivered host e l.now]) :=
      ⟨h.sent, h.timely.handOver e⟩
    have hall := ih (hover.answer h1) h2
    simpa only [List.append_assoc, List.cons_append, List.nil_append] using hall

/-- The loop, for another host. -/
theorem loop_of_ne {addr : IpAddr} (hne : addr ≠ host) {draw : Nat → Outcome} :
    ∀ {pending : List (Envelope μ)} {state state' : H} {l l' : Link μ} {tr ev : List (Event μ)},
    OnTime late slack hand host l tr →
    Link.deliverLoop receive addr draw pending state l = some (l', state', ev) →
    OnTime late slack hand host l' (tr ++ ev) := by
  intro pending
  induction pending with
  | nil =>
    intro state state' l l' tr ev h hl
    cases hl
    rw [List.append_nil]
    exact h
  | cons e pending ih =>
    intro state state' l l' tr ev h hl
    obtain ⟨⟨l1, answered⟩, h1, hl⟩ := Option.bind_eq_some_iff.mp hl
    obtain ⟨⟨l2, state2, events⟩, h2, hl⟩ := Option.bind_eq_some_iff.mp hl
    cases hl
    have hnone : deliveredTo host [.delivered addr e l.now] = [] := by simp [deliveredTo, hne]
    have hquiet : OnTime late slack hand host l (tr ++ [.delivered addr e l.now]) :=
      h.quiet h.sent rfl rfl hnone
    have hall := ih (hquiet.answer h1) h2
    simpa only [List.append_assoc, List.cons_append, List.nil_append] using hall

/-- **The host is served**: nothing that waits is overdue any more. -/
theorem serve (h : OnTime late slack 0 host l tr) (hledger : Ledger (fun _ => []) l tr)
    (hslack : slack ≤ late) {draw : Nat → Outcome} {state : H}
    (hs : l.step receive (.deliver host draw state) = some (l', ev)) :
    OnTime late 0 0 host l' (tr ++ ev) := by
  obtain ⟨⟨l2, state2, ev2⟩, h2, hs⟩ := Option.map_eq_some_iff.mp hs
  cases hs
  have horder := congrArg List.length (hledger.order host)
  simp only [List.length_map, List.length_append, List.nil_append] at horder
  have htaken : OnTime late 0 (l.readyFor host).length host
      { l with deliverable := l.deliverable.insert host [] } tr :=
    ⟨h.sent, h.timely.take hslack horder⟩
  exact htaken.loop h2

/-- **A tick** that comes after the host was served. -/
theorem tick (h : OnTime late 0 0 host l tr) {now : Nat} (hnow : now ≤ l.now + late)
    (hs : l.tick now = some (l', ev)) : OnTime late late 0 host l' (tr ++ ev) := by
  rw [Link.tick, Link.processDeliverables_eq] at hs
  cases hs
  refine process (h.timely.tick hnow) fun s hs time htime => ?_
  have := h.sent s hs time htime
  show now ≤ time + late
  omega

/-- Any other call. -/
theorem step (h : OnTime late slack 0 host l tr) (hledger : Ledger (fun _ => []) l tr)
    (hslack : slack ≤ late) {p : Pair} {op : LinkOp μ H} (hop : op.Still p)
    (hs : l.step receive op = some (l', ev)) : OnTime late slack 0 host l' (tr ++ ev) := by
  cases op with
  | send o e => exact h.send hs
  | tick now => exact absurd hop id
  | hold =>
    cases hs
    refine h.quiet (fun s hs time htime => ?_) rfl rfl rfl
    obtain ⟨s₀, -, rfl⟩ := List.mem_map.mp hs
    cases htime
  | release =>
    cases hs
    exact h.quiet (fresh_release h.sent) rfl rfl rfl
  | partition =>
    cases hs
    have hd := drops host (l.sent.map Sent.envelope)
    rw [List.map_map] at hd
    exact h.quiet (fun s hs => absurd hs List.not_mem_nil) rfl hd.2.1 hd.2.2.1
  | partitionOneway source target =>
    cases hs
    obtain ⟨-, -, f3⟩ := l.setState_fields source target .explicitPartition
    have hd := drops host ((l.sent.filter fun s => s.src.ip = source).map Sent.envelope)
    rw [List.map_map] at hd
    refine h.quiet (fun s hs time htime => ?_) f3 hd.2.1 hd.2.2.1
    have := h.sent s (List.mem_of_mem_filter hs) time htime
    exact Nat.le_trans (Nat.le_of_eq f3) this
  | repair =>
    cases hs
    exact h.quiet h.sent rfl rfl rfl
  | repairOneway source target =>
    cases hs
    obtain ⟨f1, -, f3⟩ := l.setState_fields source target .healthy
    refine h.quiet (fun s hs time htime => ?_) f3 rfl rfl
    exact Nat.le_trans (Nat.le_of_eq f3) (h.sent s (by rwa [Link.repairOneway, f1] at hs) time htime)
  | deliverSent i =>
    cases hs
    refine h.quiet (fun s hs time htime => ?_) rfl rfl rfl
    obtain ⟨j, hj⟩ := List.mem_iff_getElem?.mp hs
    rw [Link.deliverSent, List.getElem?_modify] at hj
    obtain ⟨s₀, hs₀, rfl⟩ := Option.map_eq_some_iff.mp hj
    split at htime
    · cases htime
      exact Nat.le_refl _
    · exact h.sent s₀ (List.mem_of_getElem? hs₀) time htime
  | deliver addr draw state =>
    by_cases haddr : addr = host
    · subst haddr
      have hserved := h.serve hledger hslack hs
      exact ⟨hserved.sent, hserved.timely.weaken (Nat.zero_le _)⟩
    · obtain ⟨⟨l2, state2, ev2⟩, h2, hs⟩ := Option.map_eq_some_iff.mp hs
      cases hs
      have htaken : OnTime late slack 0 host
          { l with deliverable := l.deliverable.insert addr [] } tr := ⟨h.sent, h.timely⟩
      exact htaken.loop_of_ne haddr h2

theorem run (hslack : slack ≤ late) {p : Pair} : ∀ {ops : List (LinkOp μ H)} {l l' : Link μ}
    {tr ev : List (Event μ)}, OnTime late slack 0 host l tr → Ledger (fun _ => []) l tr →
    Routed p tr → Stills p ops → l.run receive ops = some (l', ev) →
    OnTime late slack 0 host l' (tr ++ ev) := by
  intro ops
  induction ops with
  | nil =>
    intro l l' tr ev h _ _ _ hr
    cases hr
    rw [List.append_nil]
    exact h
  | cons op ops ih =>
    intro l l' tr ev h hledger hrouted hstill hr
    obtain ⟨⟨l1, ev1⟩, h1, hr⟩ := Option.bind_eq_some_iff.mp hr
    obtain ⟨⟨l2, ev2⟩, h2, hr⟩ := Option.bind_eq_some_iff.mp hr
    cases hr
    have hop := hstill op (List.mem_cons_self ..)
    obtain ⟨hledger1, -, hrouted1⟩ := hledger.stills hrouted (.one p hop) (Link.run_singleton h1)
    have hall := ih (h.step hledger hslack hop h1) hledger1 hrouted1
      (fun op hop => hstill op (List.mem_cons_of_mem _ hop)) h2
    simpa only [List.append_assoc] using hall

end

end OnTime

end Turmoil.Top
