/-
# Messages through the whole topology

`Topology::enqueue_message` and `Topology::deliver_messages` over all links, with the events of each
link.  A host is handed what is ready for it on every link that ends at it, link after link; what it
answers goes back over the same link.

Every call moves every link by a run of the link model (`Steers`), so what the link model's calls keep
of a link and its events is kept on all links (`Steers.every`).
-/
import Turmoil.Top.Conservation
import Turmoil.Top.Latency

namespace Turmoil.Top

open Turmoil.Net (IpAddr SocketAddr NetError)

variable {μ H : Type}

/-! ## 1. Calls, with their events -/

namespace ConfiguredLink

/-- The delay of a message on this link: see `Topology.sampled`. -/
def sampled (l : ConfiguredLink μ) (global : Latency) (draw : Draw) (e : Envelope μ) :
    Except LatencyPanic Nat :=
  match (l.link.randPartitionOrRepair ⟨draw.randPartition, draw.randRepair, 0⟩).1.getStateForMessage
      e.src.ip e.dst.ip with
  | .healthy => ((l.effective global).delay draw).map Duration.nanos
  | _ => .ok 0

/-- `Link::enqueue_message`. -/
def enqueueMessage (l : ConfiguredLink μ) (global : Latency) (draw : Draw) (e : Envelope μ) :
    Except LatencyPanic (ConfiguredLink μ × List (Event μ)) := do
  let delay ← l.sampled global draw e
  match l.link.enqueueMessage ⟨draw.randPartition, draw.randRepair, delay⟩ e with
  | none => .error .outOfRange
  | some (link, events) => .ok ({ l with link := link }, events)

section
variable (receive : H → Envelope μ → H × Option μ)

/-- `let _ = self.enqueue_message(..)`, where the host answers. -/
def answer (l : ConfiguredLink μ) (global : Latency) (draw : Draw) (e : Envelope μ) :
    Option μ → Except LatencyPanic (ConfiguredLink μ × List (Event μ))
  | none => .ok (l, [])
  | some message => l.enqueueMessage global draw ⟨e.dst, e.src, message⟩

/-- The loop of `Link::deliver_messages`. -/
def deliverLoop (global : Latency) (addr : IpAddr) (draw : Nat → Draw) :
    List (Envelope μ) → H → ConfiguredLink μ →
      Except LatencyPanic (ConfiguredLink μ × H × List (Event μ))
  | [], host, l => .ok (l, host, [])
  | e :: pending, host, l => do
    let (l', answered) ← l.answer global (draw pending.length) e (receive host e).2
    let (l', host, events) ← deliverLoop global addr draw pending (receive host e).1 l'
    .ok (l', host, .delivered addr e l.link.now :: answered ++ events)

/-- `Link::deliver_messages`, to the host at `addr`. -/
def deliverMessages (l : ConfiguredLink μ) (global : Latency) (addr : IpAddr) (draw : Nat → Draw)
    (host : H) : Except LatencyPanic (ConfiguredLink μ × H × List (Event μ)) :=
  deliverLoop receive global addr draw (l.link.readyFor addr) host
    { l with link := { l.link with deliverable := l.link.deliverable.insert addr [] } }

end

end ConfiguredLink

/-- The key of a link. -/
abbrev Pair := IpAddr × IpAddr

/-- What happened, on which link. -/
abbrev TopEvent (μ : Type) := Pair × Event μ

def TopEvent.tag (p : Pair) (events : List (Event μ)) : List (TopEvent μ) := events.map fun ev => (p, ev)

/-- The events of one link. -/
def eventsOn (p : Pair) (tr : List (TopEvent μ)) : List (Event μ) :=
  tr.filterMap fun ev => if ev.1 = p then some ev.2 else none

/-- The events of a call that acts on one link's states and messages. -/
def Fault.events (f : Fault) (a b : IpAddr) (l : Link μ) : List (Event μ) :=
  match f with
  | .partition => l.explicitPartition.2
  | .partitionOneway => (l.partitionOneway a b).2
  | _ => []

namespace Topology

/-- `Topology::enqueue_message`.  The answer is `connectionRefused` where there is no link. -/
def sendMessage (t : Topology μ) (draw : Draw) (e : Envelope μ) :
    Except LatencyPanic (Topology μ × List (TopEvent μ) × Except NetError Unit) := do
  let p ← pair e.src.ip e.dst.ip
  match t.links.get? p with
  | none => .ok (t, [], .error .connectionRefused)
  | some l =>
    let (l', events) ← l.enqueueMessage t.config draw e
    .ok ({ t with links := t.links.modify p fun _ => l' }, TopEvent.tag p events, .ok ())

section
variable (receive : H → Envelope μ → H × Option μ)

/-- The loop of `deliver_messages` over the links whose keys are left. -/
def deliverFrom (addr : IpAddr) (draw : Pair → Nat → Draw) :
    List Pair → Topology μ → H → Except LatencyPanic (Topology μ × H × List (TopEvent μ))
  | [], t, host => .ok (t, host, [])
  | p :: ps, t, host =>
    match t.links.get? p with
    | none => deliverFrom addr draw ps t host
    | some l =>
      if p.1 = addr ∨ p.2 = addr then do
        let (l', host, events) ← l.deliverMessages receive t.config addr (draw p) host
        let (t', host, rest) ←
          deliverFrom addr draw ps { t with links := t.links.modify p fun _ => l' } host
        .ok (t', host, TopEvent.tag p events ++ rest)
      else deliverFrom addr draw ps t host

/-- `deliver_messages`, to the host at `addr`. -/
def deliverMessages (t : Topology μ) (addr : IpAddr) (draw : Pair → Nat → Draw) (host : H) :
    Except LatencyPanic (Topology μ × H × List (TopEvent μ)) :=
  deliverFrom receive addr draw t.links.keys t host

end

/-- `SentRef::deliver`, on a message of a link that `iter_mut` goes over. -/
def deliverSent (t : Topology μ) (p : Pair) (i : Nat) : Topology μ :=
  { t with links := t.links.modify p fun l => { l with link := l.link.deliverSent i } }

/-- The events of `tick_by`. -/
def tickEvents (t : Topology μ) (duration : Nat) : List (TopEvent μ) :=
  t.links.entries.flatMap fun e =>
    TopEvent.tag e.1 (((e.2.link.tick (t.now + duration)).map Prod.snd).getD [])

end Topology

/-! ## 2. Every call is a run of the link model -/

section
variable {receive : H → Envelope μ → H × Option μ}

theorem Link.run_append {l l₁ l₂ : Link μ} {ops₁ ops₂ : List (LinkOp μ H)} {ev₁ ev₂ : List (Event μ)}
    (h₁ : l.run receive ops₁ = some (l₁, ev₁)) (h₂ : l₁.run receive ops₂ = some (l₂, ev₂)) :
    l.run receive (ops₁ ++ ops₂) = some (l₂, ev₁ ++ ev₂) := by
  induction ops₁ generalizing l ev₁ with
  | nil =>
    cases h₁
    exact h₂
  | cons op ops ih =>
    obtain ⟨⟨m, first⟩, hm, h₁⟩ := Option.bind_eq_some_iff.mp h₁
    obtain ⟨⟨m', rest⟩, hrest, h₁⟩ := Option.bind_eq_some_iff.mp h₁
    cases h₁
    rw [List.cons_append, Link.run, hm]
    simp only [Option.bind_eq_bind, Option.bind_some, ih hrest]
    rw [List.append_assoc]

theorem Link.run_singleton {l l' : Link μ} {op : LinkOp μ H} {ev : List (Event μ)}
    (h : l.step receive op = some (l', ev)) : l.run receive [op] = some (l', ev) := by
  rw [Link.run, h]
  simp only [Option.bind_eq_bind, Option.bind_some, Link.run, List.append_nil]

/-- The draws of the messages behind the first one in hand do not matter to those behind. -/
theorem Link.deliverLoop_congr {addr : IpAddr} {draw draw' : Nat → Outcome} :
    ∀ {pending : List (Envelope μ)} {host : H} {l : Link μ},
      (∀ n < pending.length, draw n = draw' n) →
        Link.deliverLoop receive addr draw pending host l
          = Link.deliverLoop receive addr draw' pending host l := by
  intro pending
  induction pending with
  | nil => exact fun _ => rfl
  | cons e pending ih =>
    intro host l hdraw
    have hrest : ∀ (host : H) (l : Link μ), Link.deliverLoop receive addr draw pending host l
        = Link.deliverLoop receive addr draw' pending host l := fun host l =>
      ih fun n hn => hdraw n (Nat.lt_succ_of_lt hn)
    simp only [Link.deliverLoop, hdraw pending.length (Nat.lt_succ_self _), hrest]

namespace ConfiguredLink

variable {l l' : ConfiguredLink μ} {global : Latency} {draw : Draw} {e : Envelope μ}
  {ev : List (Event μ)}

theorem enqueueMessage_step (h : l.enqueueMessage global draw e = .ok (l', ev)) :
    ∃ o, l.link.enqueueMessage o e = some (l'.link, ev) ∧ l'.latency = l.latency := by
  obtain ⟨delay, -, h⟩ := Net.bind_eq_ok.mp h
  refine ⟨⟨draw.randPartition, draw.randRepair, delay⟩, ?_⟩
  split at h
  · cases h
  · rename_i link events hlink
    cases h
    exact ⟨hlink, rfl⟩

theorem answer_step {reply : Option μ} (h : l.answer global draw e reply = .ok (l', ev)) :
    ∃ o, l.link.answer o e reply = some (l'.link, ev) ∧ l'.latency = l.latency := by
  cases reply with
  | none =>
    cases h
    exact ⟨⟨false, false, 0⟩, rfl, rfl⟩
  | some message => exact enqueueMessage_step h

theorem deliverLoop_step {addr : IpAddr} {draw : Nat → Draw} :
    ∀ {pending : List (Envelope μ)} {host host' : H} {l l' : ConfiguredLink μ} {ev : List (Event μ)},
      deliverLoop receive global addr draw pending host l = .ok (l', host', ev) →
        ∃ draw' : Nat → Outcome,
          Link.deliverLoop receive addr draw' pending host l.link = some (l'.link, host', ev)
            ∧ l'.latency = l.latency := by
  intro pending
  induction pending with
  | nil =>
    intro host host' l l' ev h
    cases h
    exact ⟨fun _ => ⟨false, false, 0⟩, rfl, rfl⟩
  | cons e pending ih =>
    intro host host' l l' ev h
    obtain ⟨⟨l₁, answered⟩, h₁, h⟩ := Net.bind_eq_ok.mp h
    obtain ⟨⟨l₂, host₂, events⟩, h₂, h⟩ := Net.bind_eq_ok.mp h
    cases h
    obtain ⟨o, ho, hlat⟩ := answer_step h₁
    obtain ⟨draw', hrest, hlat'⟩ := ih h₂
    refine ⟨fun n => if n < pending.length then draw' n else o, ?_, hlat'.trans hlat⟩
    simp only [Link.deliverLoop, if_neg (Nat.lt_irrefl _), ho, Option.bind_eq_bind,
      Option.bind_some]
    have hcongr : ∀ n < pending.length, (if n < pending.length then draw' n else o) = draw' n :=
      fun n hn => if_pos hn
    rw [Link.deliverLoop_congr hcongr, hrest]
    rfl

theorem deliverMessages_step {addr : IpAddr} {draw : Nat → Draw} {host host' : H}
    (h : l.deliverMessages receive global addr draw host = .ok (l', host', ev)) :
    ∃ draw' : Nat → Outcome,
      l.link.step receive (.deliver addr draw' host) = some (l'.link, ev)
        ∧ l'.latency = l.latency := by
  obtain ⟨draw', hloop, hlat⟩ := deliverLoop_step h
  refine ⟨draw', ?_, hlat⟩
  rw [Link.step, Link.deliverMessages, hloop]
  rfl

end ConfiguredLink

/-! ## 3. Every call moves every link -/

/-- Two hosts have one link. -/
theorem pair_comm (a b : IpAddr) : pair a b = pair b a := by
  by_cases h : a = b
  · rw [h]
  · rw [pair, pair, if_neg h, if_neg (Ne.symm h), ipLt_asymm h]
    cases ipLt a b <;> rfl

theorem pair_self (a : IpAddr) : pair a a = .error .sameAddress := if_pos rfl

@[simp] theorem eventsOn_append (p : Pair) (tr tr' : List (TopEvent μ)) :
    eventsOn p (tr ++ tr') = eventsOn p tr ++ eventsOn p tr' :=
  List.filterMap_append

theorem eventsOn_tag (p p' : Pair) (events : List (Event μ)) :
    eventsOn p (TopEvent.tag p' events) = if p' = p then events else [] := by
  rw [eventsOn, TopEvent.tag, List.filterMap_map]
  split
  · rename_i h
    have hsome : ∀ ev ∈ events,
        ((fun ev : TopEvent μ => if ev.1 = p then some ev.2 else none) ∘ fun ev => (p', ev)) ev
          = some ev := fun _ _ => if_pos h
    rw [List.filterMap_congr hsome, List.filterMap_some]
  · rename_i h
    exact List.filterMap_eq_nil_iff.mpr fun _ _ => if_neg h

/-- Every link is moved by calls that meet a condition, and none is added. -/
structure Steers (receive : H → Envelope μ → H × Option μ) (ok : Pair → List (LinkOp μ H) → Prop)
    (t t' : Topology μ) (ev : List (TopEvent μ)) : Prop where
  links : ∀ p l, t.links.get? p = some l → ∃ l' ops, t'.links.get? p = some l' ∧ ok p ops
    ∧ l.link.run receive ops = some (l'.link, eventsOn p ev)
  others : ∀ p, t.links.get? p = none → t'.links.get? p = none ∧ eventsOn p ev = []

/-- A property of every link and its events. -/
structure Topology.Every (P : Pair → Link μ → List (Event μ) → Prop) (t : Topology μ)
    (tr : List (TopEvent μ)) : Prop where
  links : ∀ p l, t.links.get? p = some l → P p l.link (eventsOn p tr)
  others : ∀ p, t.links.get? p = none → eventsOn p tr = []

namespace Steers

variable {ok ok' : Pair → List (LinkOp μ H) → Prop} {t t' t'' : Topology μ}
  {ev ev' tr : List (TopEvent μ)}

/-- **The rule.**  What the calls keep of one link is kept on all links. -/
theorem every {P Q : Pair → Link μ → List (Event μ) → Prop} (h : Steers receive ok t t' ev)
    (ht : t.Every P tr)
    (hkeep : ∀ {p ops l l' tr ev}, ok p ops → P p l tr → l.run receive ops = some (l', ev) →
      Q p l' (tr ++ ev)) : t'.Every Q (tr ++ ev) := by
  constructor
  · intro p l' hl'
    cases hl : t.links.get? p with
    | none => rw [(h.others p hl).1] at hl'; cases hl'
    | some l =>
      obtain ⟨l'', ops, hget, hok, hrun⟩ := h.links p l hl
      rw [hget] at hl'
      cases hl'
      rw [eventsOn_append]
      exact hkeep hok (ht.links p l hl) hrun
  · intro p hnone
    cases hl : t.links.get? p with
    | none => rw [eventsOn_append, ht.others p hl, (h.others p hl).2, List.append_nil]
    | some l =>
      obtain ⟨l'', ops, hget, -, -⟩ := h.links p l hl
      rw [hnone] at hget
      cases hget

theorem refl (hok : ∀ p, ok p []) (t : Topology μ) : Steers receive ok t t [] where
  links _ l hl := ⟨l, [], hl, hok _, rfl⟩
  others _ hp := ⟨hp, rfl⟩

theorem mono (h : Steers receive ok t t' ev) (hok : ∀ {p ops}, ok p ops → ok' p ops) :
    Steers receive ok' t t' ev where
  links p l hl := by
    obtain ⟨l', ops, hl', hops, hrun⟩ := h.links p l hl
    exact ⟨l', ops, hl', hok hops, hrun⟩
  others := h.others

theorem trans {ok'' : Pair → List (LinkOp μ H) → Prop} (h : Steers receive ok t t' ev)
    (h' : Steers receive ok' t' t'' ev')
    (hok : ∀ {p ops ops'}, ok p ops → ok' p ops' → ok'' p (ops ++ ops')) :
    Steers receive ok'' t t'' (ev ++ ev') := by
  constructor
  · intro p l hl
    obtain ⟨l', ops, hl', hops, hrun⟩ := h.links p l hl
    obtain ⟨l'', ops', hl'', hops', hrun'⟩ := h'.links p l' hl'
    refine ⟨l'', ops ++ ops', hl'', hok hops hops', ?_⟩
    rw [eventsOn_append]
    exact Link.run_append hrun hrun'
  · intro p hnone
    obtain ⟨hnone', hev⟩ := h.others p hnone
    obtain ⟨hnone'', hev'⟩ := h'.others p hnone'
    exact ⟨hnone'', by rw [eventsOn_append, hev, hev', List.append_nil]⟩

/-- The same links. -/
theorem contains (h : Steers receive ok t t' ev) (p : Pair) :
    t'.links.contains p = t.links.contains p := by
  cases hl : t.links.get? p with
  | none =>
    rw [IndexMap.contains_eq_false.mpr hl, IndexMap.contains_eq_false.mpr (h.others p hl).1]
  | some l =>
    obtain ⟨l', ops, hl', -, -⟩ := h.links p l hl
    rw [IndexMap.contains_iff.mpr ⟨l, hl⟩, IndexMap.contains_iff.mpr ⟨l', hl'⟩]

/-- One link is moved. -/
theorem single {p : Pair} {l : ConfiguredLink μ} (l' : ConfiguredLink μ) {ops : List (LinkOp μ H)} {ev : List (Event μ)}
    (hl : t.links.get? p = some l) (hrun : l.link.run receive ops = some (l'.link, ev))
    (hlinks : ∀ q, t'.links.get? q = if q = p then some l' else t.links.get? q) (hok : ok p ops)
    (hidle : ∀ q ≠ p, ok q []) : Steers receive ok t t' (TopEvent.tag p ev) := by
  constructor
  · intro q m hm
    by_cases hq : q = p
    · subst hq
      rw [hl] at hm
      cases hm
      exact ⟨l', ops, by rw [hlinks, if_pos rfl], hok, by rw [eventsOn_tag, if_pos rfl]; exact hrun⟩
    · refine ⟨m, [], by rw [hlinks, if_neg hq]; exact hm, hidle q hq, ?_⟩
      rw [eventsOn_tag, if_neg (Ne.symm hq)]
      rfl
  · intro q hnone
    have hq : q ≠ p := by
      rintro rfl
      rw [hl] at hnone
      cases hnone
    exact ⟨by rw [hlinks, if_neg hq]; exact hnone, by rw [eventsOn_tag, if_neg (Ne.symm hq)]⟩

end Steers

/-- The call is no tick, and a message that is sent goes between the two ends. -/
def LinkOp.Still (p : Pair) : LinkOp μ H → Prop
  | .tick _ => False
  | .send _ e => pair e.src.ip e.dst.ip = .ok p
  | _ => True

theorem Link.enqueueMessage_now {l l' : Link μ} {o : Outcome} {e : Envelope μ} {ev : List (Event μ)}
    (h : l.enqueueMessage o e = some (l', ev)) : l'.now = l.now := by
  rw [Link.enqueueMessage_eq] at h
  cases h
  refine (l.queued o e).settled_fields.2.1.trans ?_
  unfold Link.queued Link.enqueue Link.randPartitionOrRepair
  split <;> split <;> first | rfl | (split <;> rfl)

/-- Only a tick moves the clock of a link. -/
theorem Link.step_now {p : Pair} {l l' : Link μ} {op : LinkOp μ H} {ev : List (Event μ)}
    (hop : op.Still p)
    (h : l.step receive op = some (l', ev)) : l'.now = l.now := by
  cases op with
  | send o e => exact enqueueMessage_now h
  | tick now => exact absurd hop id
  | partitionOneway source target =>
    cases h
    exact (l.setState_fields source target .explicitPartition).2.2
  | repairOneway source target =>
    cases h
    exact (l.setState_fields source target .healthy).2.2
  | deliver addr draw host =>
    obtain ⟨⟨l₂, host₂, ev₂⟩, h₂, h⟩ := Option.map_eq_some_iff.mp h
    cases h
    have hloop : ∀ {pending : List (Envelope μ)} {host host' : H} {l l' : Link μ}
        {ev : List (Event μ)},
        Link.deliverLoop receive addr draw pending host l = some (l', host', ev) →
          l'.now = l.now := by
      intro pending
      induction pending with
      | nil =>
        intro host host' l l' ev h
        cases h
        rfl
      | cons e pending ih =>
        intro host host' l l' ev h
        obtain ⟨⟨l₁, answered⟩, h₁, h⟩ := Option.bind_eq_some_iff.mp h
        obtain ⟨⟨l₃, host₃, events⟩, h₃, h⟩ := Option.bind_eq_some_iff.mp h
        cases h
        refine (ih h₃).trans ?_
        cases hreply : (receive host e).2 with
        | none =>
          rw [hreply] at h₁
          cases h₁
          rfl
        | some message =>
          rw [hreply] at h₁
          exact enqueueMessage_now h₁
    have hnow := hloop h₂
    exact hnow
  | _ =>
    cases h
    rfl

/-- The calls are no ticks, and what is sent goes between the two ends. -/
def Stills (p : Pair) (ops : List (LinkOp μ H)) : Prop := ∀ op ∈ ops, op.Still p

theorem Stills.nil (p : Pair) : Stills p ([] : List (LinkOp μ H)) := fun _ h => by cases h

theorem Stills.append {p : Pair} {ops ops' : List (LinkOp μ H)} (h : Stills p ops)
    (h' : Stills p ops') : Stills p (ops ++ ops') := fun op hop => by
  rcases List.mem_append.mp hop with hop | hop
  · exact h op hop
  · exact h' op hop

theorem Stills.one (p : Pair) {op : LinkOp μ H} (h : op.Still p) : Stills p [op] := fun _ hop => by
  rw [List.mem_singleton.mp hop]
  exact h

/-- Every message that entered a link goes between its two ends. -/
def Routed (p : Pair) (tr : List (Event μ)) : Prop :=
  ∀ host, ∀ e ∈ enteredTo host tr, pair e.src.ip e.dst.ip = .ok p

theorem Routed.append {p : Pair} {tr ev : List (Event μ)} (h : Routed p tr) (h' : Routed p ev) :
    Routed p (tr ++ ev) := by
  intro host e he
  rw [enteredTo_append] at he
  rcases List.mem_append.mp he with he | he
  · exact h host e he
  · exact h' host e he

/-- Events in which nothing enters. -/
theorem Routed.of_none {p : Pair} {ev : List (Event μ)} (h : ∀ host, enteredTo host ev = []) :
    Routed p ev := by
  intro host e he
  rw [h] at he
  cases he

theorem Routed.send {p : Pair} {l l' : Link μ} {o : Outcome} {e : Envelope μ} {ev : List (Event μ)}
    (he : pair e.src.ip e.dst.ip = .ok p) (h : l.enqueueMessage o e = some (l', ev)) :
    Routed p ev := by
  rw [Link.enqueueMessage_eq] at h
  cases h
  have hdraw : ∀ host, enteredTo host (l.randPartitionOrRepair o).2 = [] := by
    intro host
    unfold Link.randPartitionOrRepair
    split
    · have hd := drops host (l.sent.map Sent.envelope)
      rw [List.map_map] at hd
      exact hd.1
    · split <;> rfl
  have hjoin : ∀ m : Link μ, Routed p (.entered e :: (m.enqueue o e).2) := by
    intro m host e' he'
    have hdrops : enteredTo host (m.enqueue o e).2 = [] := by
      unfold Link.enqueue
      split <;> rfl
    rw [← List.singleton_append, enteredTo_append, hdrops, List.append_nil] at he'
    by_cases hdst : e.dst.ip = host
    · simp only [enteredTo, List.filterMap_cons, if_pos hdst, List.filterMap_nil,
        List.mem_singleton] at he'
      rw [he']
      exact he
    · simp only [enteredTo, List.filterMap_cons, if_neg hdst, List.filterMap_nil,
        List.not_mem_nil] at he'
  exact ((Routed.of_none hdraw).append (hjoin _)).append (Routed.of_none fun host => (moves host _).1)

/-- What a host answers goes back between the same two ends. -/
theorem Routed.loop {p : Pair} {addr : IpAddr} {draw : Nat → Outcome} :
    ∀ {pending : List (Envelope μ)} {host host' : H} {l l' : Link μ} {ev : List (Event μ)},
      (∀ e ∈ pending, pair e.src.ip e.dst.ip = .ok p) →
      Link.deliverLoop receive addr draw pending host l = some (l', host', ev) → Routed p ev := by
  intro pending
  induction pending with
  | nil =>
    intro host host' l l' ev _ h
    cases h
    exact .of_none fun _ => rfl
  | cons e pending ih =>
    intro host host' l l' ev hpending h
    obtain ⟨⟨l₁, answered⟩, h₁, h⟩ := Option.bind_eq_some_iff.mp h
    obtain ⟨⟨l₂, host₂, events⟩, h₂, h⟩ := Option.bind_eq_some_iff.mp h
    cases h
    have hanswer : Routed p answered := by
      cases hreply : (receive host e).2 with
      | none =>
        rw [hreply] at h₁
        cases h₁
        exact .of_none fun _ => rfl
      | some message =>
        rw [hreply] at h₁
        refine Routed.send ?_ h₁
        rw [pair_comm]
        exact hpending e (List.mem_cons_self ..)
    have hrest := ih (fun e he => hpending e (List.mem_cons_of_mem _ he)) h₂
    have hover : Routed p [.delivered addr e l.now] := .of_none fun _ => rfl
    exact (hover.append hanswer).append hrest

/-- Deliveries of what entered, and sends between the two ends, keep to the two ends. -/
theorem Routed.step {p : Pair} {l l' : Link μ} {tr ev : List (Event μ)} {op : LinkOp μ H}
    (h : Routed p tr) (hledger : Ledger (fun _ => []) l tr) (hop : op.Still p)
    (hs : l.step receive op = some (l', ev)) : Routed p (tr ++ ev) := by
  refine h.append ?_
  cases op with
  | send o e => exact .send hop hs
  | tick now => exact absurd hop id
  | partition =>
    cases hs
    refine .of_none fun host => ?_
    have hd := drops host (l.sent.map Sent.envelope)
    rw [List.map_map] at hd
    exact hd.1
  | partitionOneway source target =>
    cases hs
    refine .of_none fun host => ?_
    have hd := drops host ((l.sent.filter fun s => s.src.ip = source).map Sent.envelope)
    rw [List.map_map] at hd
    exact hd.1
  | deliver addr draw host =>
    obtain ⟨⟨l₂, host₂, ev₂⟩, h₂, hs⟩ := Option.map_eq_some_iff.mp hs
    cases hs
    refine Routed.loop (fun e he => h addr e ?_) h₂
    -- what is ready for a host had entered for it
    refine (hledger.balance addr).mem_iff.mpr ?_
    exact List.mem_append_right _ (List.mem_append_right _ (List.mem_append_right _
      (List.mem_append_left _ he)))
  | _ =>
    cases hs
    exact .of_none fun _ => rfl

/-- **Calls that are no ticks** keep the ledger and the clock of a link, and to its two ends. -/
theorem Ledger.stills {p : Pair} : ∀ {ops : List (LinkOp μ H)} {l l' : Link μ}
    {tr ev : List (Event μ)}, Ledger (fun _ => []) l tr → Routed p tr → Stills p ops →
      l.run receive ops = some (l', ev) →
      Ledger (fun _ => []) l' (tr ++ ev) ∧ l'.now = l.now ∧ Routed p (tr ++ ev) := by
  intro ops
  induction ops with
  | nil =>
    intro l l' tr ev h hrouted _ hr
    cases hr
    rw [List.append_nil]
    exact ⟨h, rfl, hrouted⟩
  | cons op ops ih =>
    intro l l' tr ev h hrouted hstill hr
    obtain ⟨⟨l₁, first⟩, h₁, hr⟩ := Option.bind_eq_some_iff.mp hr
    obtain ⟨⟨l₂, rest⟩, h₂, hr⟩ := Option.bind_eq_some_iff.mp hr
    cases hr
    have hop := hstill op (List.mem_cons_self ..)
    have hforward : op.Forward l := by
      cases op with
      | tick now => exact absurd hop id
      | _ => trivial
    obtain ⟨hl, hnow, hroute⟩ := ih (h.step hforward h₁) (hrouted.step h hop h₁)
      (fun op hop => hstill op (List.mem_cons_of_mem _ hop)) h₂
    rw [← List.append_assoc]
    exact ⟨hl, hnow.trans (Link.step_now hop h₁), hroute⟩

namespace Topology

variable {t t' : Topology μ}

theorem modify_const {p : Pair} {l l' : ConfiguredLink μ} (hl : t.links.get? p = some l) (q : Pair) :
    (t.links.modify p fun _ => l').get? q = if q = p then some l' else t.links.get? q := by
  rw [IndexMap.get?_modify, hl]
  rfl

/-- `Topology::enqueue_message`. -/
theorem sendMessage_steers {draw : Draw} {e : Envelope μ} {ev : List (TopEvent μ)}
    {r : Except NetError Unit} (h : t.sendMessage draw e = .ok (t', ev, r)) :
    Steers receive Stills t t' ev ∧ t'.now = t.now := by
  obtain ⟨p, hp, h⟩ := Net.bind_eq_ok.mp h
  split at h
  · cases h
    exact ⟨.refl Stills.nil t, rfl⟩
  · rename_i l hl
    obtain ⟨⟨l', events⟩, henq, h⟩ := Net.bind_eq_ok.mp h
    cases h
    obtain ⟨o, hlink, -⟩ := ConfiguredLink.enqueueMessage_step henq
    have hrun : l.link.run receive [.send o e] = some (l'.link, events) :=
      Link.run_singleton hlink
    exact ⟨.single _ hl hrun (modify_const hl) (.one p hp) fun q _ => .nil q, rfl⟩

/-- The call of the link model. -/
def faultOp (f : Fault) (a b : IpAddr) : LinkOp μ H :=
  match f with
  | .hold => .hold
  | .release => .release
  | .partition => .partition
  | .partitionOneway => .partitionOneway a b
  | .repair => .repair
  | .repairOneway => .repairOneway a b

theorem faultOp_step (f : Fault) (a b : IpAddr) (l : Link μ) :
    l.step receive (faultOp f a b) = some (f.apply a b l, f.events a b l) := by
  cases f <;> rfl

/-- The events of a fault between two hosts. -/
def faultEvents (t : Topology μ) (f : Fault) (a b : IpAddr) : List (TopEvent μ) :=
  match pair a b with
  | .error _ => []
  | .ok p => TopEvent.tag p (((t.links.get? p).map fun l => f.events a b l.link).getD [])

theorem fault_steers {f : Fault} {a b : IpAddr} (h : t.fault f a b = .ok t') :
    Steers receive Stills t t' (t.faultEvents f a b) ∧ t'.now = t.now := by
  obtain ⟨p, l, hp, hl, rfl⟩ := withLink_eq_ok.mp h
  refine ⟨?_, rfl⟩
  have hev : t.faultEvents f a b = TopEvent.tag p (f.events a b l.link) := by
    simp only [faultEvents, hp, hl, Option.map_some, Option.getD_some]
  rw [hev]
  refine .single { l with link := f.apply a b l.link } hl
    (Link.run_singleton (faultOp_step f a b l.link)) (fun q => ?_) (.one p ?_) fun q _ => .nil q
  · rw [IndexMap.get?_modify, hl]
    rfl
  · cases f <;> exact trivial

/-! ### Deliveries -/

/-- The host at `addr` is served over the links that end at it. -/
def Serves (addr : IpAddr) (p : Pair) (ops : List (LinkOp μ H)) : Prop :=
  if p.1 = addr ∨ p.2 = addr then ∃ draw host, ops = [.deliver addr draw host] else ops = []

theorem Serves.stills {addr : IpAddr} {p : Pair} {ops : List (LinkOp μ H)} (h : Serves addr p ops) :
    Stills p ops := by
  unfold Serves at h
  split at h
  · obtain ⟨draw, host, rfl⟩ := h
    exact .one p trivial
  · rw [h]
    exact .nil p

/-- The loop over the links whose keys are left: these links are served, the others stay. -/
theorem deliverFrom_steers {addr : IpAddr} {draw : Pair → Nat → Draw} :
    ∀ {ps : List Pair} {t t' : Topology μ} {host host' : H} {ev : List (TopEvent μ)}, ps.Nodup →
      deliverFrom receive addr draw ps t host = .ok (t', host', ev) →
        Steers receive (fun p ops => if p ∈ ps then Serves addr p ops else ops = []) t t' ev
          ∧ t'.now = t.now := by
  intro ps
  induction ps with
  | nil =>
    intro t t' host host' ev _ h
    cases h
    exact ⟨.refl (fun _ => by rw [if_neg List.not_mem_nil]) t, rfl⟩
  | cons p ps ih =>
    intro t t' host host' ev hnodup h
    obtain ⟨hp, hnodup⟩ := List.nodup_cons.mp hnodup
    -- a key that is passed over
    have hskip : (∀ l, t.links.get? p = some l → ¬ (p.1 = addr ∨ p.2 = addr)) →
        deliverFrom receive addr draw ps t host = .ok (t', host', ev) →
        Steers receive (fun q ops => if q ∈ p :: ps then Serves addr q ops else ops = []) t t' ev
          ∧ t'.now = t.now := by
      intro haway h
      obtain ⟨hst, hnow⟩ := ih hnodup h
      refine ⟨⟨fun q l hl => ?_, hst.others⟩, hnow⟩
      obtain ⟨l', ops, hl', hok, hrun⟩ := hst.links q l hl
      refine ⟨l', ops, hl', ?_, hrun⟩
      by_cases hq : q = p
      · subst hq
        rw [if_neg hp] at hok
        rw [if_pos (List.mem_cons_self ..), Serves, if_neg (haway l hl)]
        exact hok
      · simpa only [List.mem_cons, hq, false_or] using hok
    rw [deliverFrom] at h
    split at h
    · rename_i hnone
      exact hskip (fun l hl => by rw [hnone] at hl; cases hl) h
    · rename_i l hl
      split at h
      · rename_i hend
        obtain ⟨⟨l₁, host₁, events⟩, h₁, h⟩ := Net.bind_eq_ok.mp h
        obtain ⟨⟨t₂, host₂, rest⟩, h₂, h⟩ := Net.bind_eq_ok.mp h
        cases h
        obtain ⟨draw', hstep, -⟩ := ConfiguredLink.deliverMessages_step h₁
        obtain ⟨hst, hnow⟩ := ih hnodup h₂
        refine ⟨⟨fun q m hm => ?_, fun q hq => ?_⟩, hnow⟩
        · by_cases hq : q = p
          · subst hq
            rw [hl] at hm
            cases hm
            obtain ⟨l', ops, hl', hok, hrun⟩ :=
              hst.links q l₁ ((modify_const hl q).trans (if_pos rfl))
            rw [if_neg hp] at hok
            subst hok
            simp only [Link.run, Option.some.injEq, Prod.mk.injEq] at hrun
            refine ⟨l', [.deliver addr draw' host], hl', ?_, ?_⟩
            · rw [if_pos (List.mem_cons_self ..), Serves, if_pos hend]
              exact ⟨draw', host, rfl⟩
            · rw [eventsOn_append, eventsOn_tag, if_pos rfl, ← hrun.2, List.append_nil, ← hrun.1]
              exact Link.run_singleton hstep
          · obtain ⟨l', ops, hl', hok, hrun⟩ :=
              hst.links q m ((modify_const hl q).trans (by rw [if_neg hq]; exact hm))
            refine ⟨l', ops, hl', by simpa only [List.mem_cons, hq, false_or] using hok, ?_⟩
            rw [eventsOn_append, eventsOn_tag, if_neg (Ne.symm hq)]
            exact hrun
        · have hne : q ≠ p := by
            rintro rfl
            rw [hl] at hq
            cases hq
          obtain ⟨hnone, hev⟩ :=
            hst.others q ((modify_const hl q).trans (by rw [if_neg hne]; exact hq))
          refine ⟨hnone, ?_⟩
          rw [eventsOn_append, eventsOn_tag, if_neg (Ne.symm hne), hev]
          rfl
      · rename_i hend
        exact hskip (fun _ _ => hend) h

/-- `Topology::deliver_messages`. -/
theorem deliverMessages_steers {addr : IpAddr} {draw : Pair → Nat → Draw} {host host' : H}
    {ev : List (TopEvent μ)} (h : t.deliverMessages receive addr draw host = .ok (t', host', ev)) :
    Steers receive (Serves addr) t t' ev ∧ t'.now = t.now := by
  obtain ⟨hst, hnow⟩ := deliverFrom_steers t.links.keys_nodup h
  refine ⟨⟨fun p l hl => ?_, hst.others⟩, hnow⟩
  obtain ⟨l', ops, hl', hok, hrun⟩ := hst.links p l hl
  rw [if_pos (IndexMap.mem_keys.mpr ⟨l, hl⟩)] at hok
  exact ⟨l', ops, hl', hok, hrun⟩

/-! ### Ticks, and what else a user can do -/

/-- The events of one link, out of all. -/
theorem eventsOn_flatMap (f : ConfiguredLink μ → List (Event μ)) (p : Pair) :
    ∀ {es : List (Pair × ConfiguredLink μ)}, (es.map Prod.fst).Nodup →
      eventsOn p (es.flatMap fun e => TopEvent.tag e.1 (f e.2))
        = ((IndexMap.lookup p es).map f).getD [] := by
  intro es
  induction es with
  | nil => exact fun _ => rfl
  | cons e es ih =>
    intro hnodup
    obtain ⟨he, hnodup⟩ := List.nodup_cons.mp hnodup
    rw [List.flatMap_cons, eventsOn_append, eventsOn_tag, ih hnodup, IndexMap.lookup]
    by_cases hp : e.1 = p
    · subst hp
      rw [if_pos rfl, if_pos rfl, IndexMap.lookup_eq_none.mpr he, Option.map_none,
        Option.getD_none, List.append_nil, Option.map_some, Option.getD_some]
    · rw [if_neg hp, if_neg hp, List.nil_append]

theorem tickBy_steers (t : Topology μ) (duration : Nat) :
    Steers receive (fun _ ops => ops = [.tick (t.now + duration)]) t (t.tickBy duration)
      (t.tickEvents duration) := by
  have hon : ∀ p, eventsOn p (t.tickEvents duration) = ((t.links.get? p).map fun l =>
      ((l.link.tick (t.now + duration)).map Prod.snd).getD []).getD [] := fun p =>
    eventsOn_flatMap (fun l => ((l.link.tick (t.now + duration)).map Prod.snd).getD []) p
      t.links.nodup
  have hget : ∀ p, (t.tickBy duration).links.get? p = (t.links.get? p).map fun l =>
      { l with link := ((l.link.tick (t.now + duration)).map Prod.fst).getD l.link } := fun p =>
    IndexMap.get?_mapValues _ _ p
  constructor
  · intro p l hl
    have hstep : l.link.tick (t.now + duration) = _ := Link.processDeliverables_eq _
    refine ⟨_, [.tick (t.now + duration)], by rw [hget, hl]; rfl, rfl, ?_⟩
    rw [hon, hl]
    simp only [Option.map_some, Option.getD_some, hstep]
    exact Link.run_singleton hstep
  · intro p hnone
    exact ⟨by rw [hget, hnone]; rfl, by rw [hon, hnone]; rfl⟩

theorem deliverSent_steers (t : Topology μ) (p : Pair) (i : Nat) :
    Steers receive Stills t (t.deliverSent p i) [] := by
  have hget : ∀ q, (t.deliverSent p i).links.get? q = if q = p then (t.links.get? p).map fun l =>
      { l with link := l.link.deliverSent i } else t.links.get? q := fun q =>
    IndexMap.get?_modify _ _ q _
  constructor
  · intro q l hl
    rw [hget]
    by_cases hq : q = p
    · subst hq
      rw [if_pos rfl, hl]
      exact ⟨_, [.deliverSent i], rfl, .one q trivial, Link.run_singleton rfl⟩
    · rw [if_neg hq, hl]
      exact ⟨l, [], rfl, .nil q, rfl⟩
  · intro q hnone
    rw [hget]
    by_cases hq : q = p
    · subst hq
      rw [if_pos rfl, hnone]
      exact ⟨rfl, rfl⟩
    · rw [if_neg hq, hnone]
      exact ⟨rfl, rfl⟩

theorem setMaxMessageLatency_steers (t : Topology μ) (value : Duration) :
    Steers receive Stills t (t.setMaxMessageLatency value) [] :=
  ⟨fun p l hl => ⟨l, [], hl, .nil p, rfl⟩, fun _ hp => ⟨hp, rfl⟩⟩

/-- A call that leaves the states and the messages of every link as they are. -/
theorem withLink_steers {a b : IpAddr} {f : ConfiguredLink μ → ConfiguredLink μ}
    (h : t.withLink a b f = .ok t') (hf : ∀ l, (f l).link = l.link) :
    Steers receive Stills t t' [] ∧ t'.now = t.now := by
  obtain ⟨p, l, -, hl, rfl⟩ := withLink_eq_ok.mp h
  have hget : ∀ q, (t.links.modify p f).get? q = if q = p then some (f l) else t.links.get? q := by
    intro q
    rw [IndexMap.get?_modify, hl]
    rfl
  have hrun : l.link.run receive [] = some ((f l).link, []) := by rw [hf]; rfl
  exact ⟨.single _ hl hrun hget (.nil p) fun q _ => .nil q, rfl⟩

/-- A new link begins with no messages and no events. -/
theorem register_every {P : Pair → Link μ → List (Event μ) → Prop} {a b : IpAddr}
    {tr : List (TopEvent μ)} (h : t.register a b = .ok t') (ht : t.Every P tr)
    (hnew : ∀ p, P p (Link.new t.now) []) : t'.Every P tr := by
  obtain ⟨p, -, hnone, rfl⟩ := register_eq_ok.mp h
  have hget : ∀ q, (t.links.insert p (.new t.now)).get? q
      = if q = p then some (.new t.now) else t.links.get? q := fun q =>
    IndexMap.get?_insert _ p q _
  constructor
  · intro q l hl
    have hq := (hget q).symm.trans hl
    split at hq
    · rename_i heq
      cases hq
      rw [heq, ht.others p hnone]
      exact hnew p
    · exact ht.links q l hq
  · intro q hnil
    have hq := (hget q).symm.trans hnil
    split at hq
    · cases hq
    · exact ht.others q hq

end Topology

end

end Turmoil.Top
