/-
# Latency bounds

`Link::delay` draws a delay between a least and a greatest latency, and takes their difference: it
panics if they are out of order.  A link has bounds of its own from the first call that sets one of
them for it, copied from the global bounds at that moment; until then the global ones are its
bounds.

The builder refuses bounds that are out of order.  The calls that set them later do not look at the
other bound, so what the builder checked is kept exactly by the runs whose calls do it themselves
(`latency_bounds_stay_ordered_iff`): a new global maximum is not below the global minimum, or no link
uses the global bounds; a link's new maximum is not below its minimum; and no host is registered
while the global bounds are out of order.

The exponential distribution is not modelled: a draw is any function from the range to a number of
milliseconds.  Messages that are delivered do not concern the bounds, and what a host answers is
sent.
-/
import Turmoil.Top.Link
import Turmoil.Lib.Run

namespace Turmoil.Top

open Turmoil.Net (IpAddr SocketAddr NetError)

/-! ## 1. Durations -/

/-- The calls that do not return. -/
inductive LatencyPanic where
  | subOverflow
  | addOverflow
  | maxBelowMin
  | sameAddress
  | alreadyLinked
  | noLink
  | outOfRange
  deriving DecidableEq, Repr

/-- A 64-bit number of seconds, and less than a second in nanoseconds. -/
structure Duration where
  nanos : Nat
  lt : nanos < 2 ^ 64 * 10 ^ 9
  deriving DecidableEq, Repr

namespace Duration

instance : LE Duration := ⟨fun a b => a.nanos ≤ b.nanos⟩

instance (a b : Duration) : Decidable (a ≤ b) := inferInstanceAs (Decidable (a.nanos ≤ b.nanos))

def fromMillis (ms : UInt64) : Duration where
  nanos := ms.toNat * 10 ^ 6
  lt := by
    have := ms.toNat_lt
    omega

def asMillis (d : Duration) : Nat := d.nanos / 10 ^ 6

/-- `Sub::sub`: "overflow when subtracting durations". -/
def sub (a b : Duration) : Except LatencyPanic Duration :=
  if b.nanos ≤ a.nanos then .ok ⟨a.nanos - b.nanos, Nat.lt_of_le_of_lt (Nat.sub_le _ _) a.lt⟩
  else .error .subOverflow

/-- `Add::add`: "overflow when adding durations". -/
def add (a b : Duration) : Except LatencyPanic Duration :=
  if h : a.nanos + b.nanos < 2 ^ 64 * 10 ^ 9 then .ok ⟨a.nanos + b.nanos, h⟩
  else .error .addOverflow

def min (a b : Duration) : Duration := if a ≤ b then a else b

end Duration

/-! ## 2. The source -/

structure Latency where
  minMessageLatency : Duration
  maxMessageLatency : Duration
  deriving DecidableEq, Repr

/-- What one send draws: the faults, and `range * mult` as a whole number of milliseconds. -/
structure Draw where
  randPartition : Bool
  randRepair : Bool
  scaled : Nat → UInt64
  scaled_zero : scaled 0 = 0

/-- A link with its optional configuration. -/
structure ConfiguredLink (μ : Type) where
  latency : Option Latency
  link : Link μ

namespace ConfiguredLink

variable {μ : Type}

def new (now : Nat) : ConfiguredLink μ := ⟨none, Link.new now⟩

/-- The configuration in effect: the link's own, or else the global one. -/
def effective (l : ConfiguredLink μ) (global : Latency) : Latency := l.latency.getD global

/-- `Link::latency`, followed by an assignment through the reference. -/
def setLatency (l : ConfiguredLink μ) (global : Latency) (f : Latency → Latency) :
    ConfiguredLink μ :=
  { l with latency := some (f (l.latency.getD global)) }

end ConfiguredLink

/-- `Link::delay`, of the configuration in effect. -/
def Latency.delay (config : Latency) (draw : Draw) : Except LatencyPanic Duration := do
  let range ← config.maxMessageLatency.sub config.minMessageLatency
  let delay ← config.minMessageLatency.add (.fromMillis (draw.scaled range.asMillis))
  pure (delay.min config.maxMessageLatency)

structure Topology (μ : Type) where
  config : Latency
  links : IndexMap (IpAddr × IpAddr) (ConfiguredLink μ)
  now : Nat

/-- `Pair::new`. -/
def pair (a b : IpAddr) : Except LatencyPanic (IpAddr × IpAddr) :=
  if a = b then .error .sameAddress else .ok (if ipLt a b then (a, b) else (b, a))

/-- The calls that act on a link's states and messages alone. -/
inductive Fault where
  | hold
  | release
  | partition
  | partitionOneway
  | repair
  | repairOneway
  deriving DecidableEq, Repr

def Fault.apply {μ : Type} (f : Fault) (a b : IpAddr) (l : Link μ) : Link μ :=
  match f with
  | .hold => l.hold
  | .release => l.release
  | .partition => l.explicitPartition.1
  | .partitionOneway => (l.partitionOneway a b).1
  | .repair => l.explicitRepair
  | .repairOneway => l.repairOneway a b

namespace Topology

variable {μ : Type}

def new (config : Latency) : Topology μ := ⟨config, IndexMap.empty, 0⟩

/-- `Builder::build_on`. -/
def buildOn (config : Latency) : Except LatencyPanic (Topology μ) :=
  if config.minMessageLatency ≤ config.maxMessageLatency then .ok (new config)
  else .error .maxBelowMin

def register (t : Topology μ) (a b : IpAddr) : Except LatencyPanic (Topology μ) := do
  let pair ← pair a b
  if t.links.contains pair then .error .alreadyLinked
  else .ok { t with links := t.links.insert pair (.new t.now) }

def setMaxMessageLatency (t : Topology μ) (value : Duration) : Topology μ :=
  { t with config := { t.config with maxMessageLatency := value } }

/-- `links.get_mut(&pair)`, or a panic, and a change of the link. -/
def withLink (t : Topology μ) (a b : IpAddr) (f : ConfiguredLink μ → ConfiguredLink μ) :
    Except LatencyPanic (Topology μ) := do
  let pair ← pair a b
  if t.links.contains pair then .ok { t with links := t.links.modify pair f } else .error .noLink

def setLinkMessageLatency (t : Topology μ) (a b : IpAddr) (value : Duration) :
    Except LatencyPanic (Topology μ) :=
  t.withLink a b fun l => l.setLatency t.config fun _ => ⟨value, value⟩

def setLinkMaxMessageLatency (t : Topology μ) (a b : IpAddr) (value : Duration) :
    Except LatencyPanic (Topology μ) :=
  t.withLink a b fun l => l.setLatency t.config fun c => { c with maxMessageLatency := value }

/-- The delay of a message: drawn only if its direction is healthy after the draw of the faults. -/
def sampled (t : Topology μ) (l : ConfiguredLink μ) (draw : Draw) (e : Envelope μ) :
    Except LatencyPanic Nat :=
  match (l.link.randPartitionOrRepair ⟨draw.randPartition, draw.randRepair, 0⟩).1.getStateForMessage
      e.src.ip e.dst.ip with
  | .healthy => ((l.effective t.config).delay draw).map Duration.nanos
  | _ => .ok 0

def enqueueMessage (t : Topology μ) (draw : Draw) (e : Envelope μ) :
    Except LatencyPanic (Topology μ × Except NetError Unit) := do
  let pair ← pair e.src.ip e.dst.ip
  match t.links.get? pair with
  | none => .ok (t, .error .connectionRefused)
  | some l =>
    let delay ← t.sampled l draw e
    match l.link.enqueueMessage ⟨draw.randPartition, draw.randRepair, delay⟩ e with
    | none => .error .outOfRange
    | some (link, _) =>
      .ok ({ t with links := t.links.modify pair fun l => { l with link := link } }, .ok ())

/-- `tick_by`.  A link's tick does not fail (`processDeliverables_eq`). -/
def tickBy (t : Topology μ) (duration : Nat) : Topology μ :=
  let now := t.now + duration
  { t with
    now := now
    links := t.links.mapValues fun l =>
      { l with link := ((l.link.tick now).map Prod.fst).getD l.link } }

def fault (t : Topology μ) (f : Fault) (a b : IpAddr) : Except LatencyPanic (Topology μ) :=
  t.withLink a b fun l => { l with link := f.apply a b l.link }

end Topology

/-- A call. -/
inductive TopOp (μ : Type) where
  | register (a b : IpAddr)
  | setMaxMessageLatency (value : Duration)
  | setLinkMessageLatency (a b : IpAddr) (value : Duration)
  | setLinkMaxMessageLatency (a b : IpAddr) (value : Duration)
  | send (draw : Draw) (e : Envelope μ)
  | tickBy (duration : Nat)
  | fault (f : Fault) (a b : IpAddr)

namespace Topology

variable {μ : Type}

def step (t : Topology μ) : TopOp μ → Except LatencyPanic (Topology μ)
  | .register a b => t.register a b
  | .setMaxMessageLatency value => .ok (t.setMaxMessageLatency value)
  | .setLinkMessageLatency a b value => t.setLinkMessageLatency a b value
  | .setLinkMaxMessageLatency a b value => t.setLinkMaxMessageLatency a b value
  | .send draw e => (t.enqueueMessage draw e).map Prod.fst
  | .tickBy duration => .ok (t.tickBy duration)
  | .fault f a b => t.fault f a b

/-- The topology after a list of calls, all of which return. -/
def run (t : Topology μ) (ops : List (TopOp μ)) : Except LatencyPanic (Topology μ) :=
  ops.foldlM step t

end Topology

/-! ## 3. Bounds in order -/

namespace Duration

variable {a b d : Duration}

theorem le_refl (a : Duration) : a ≤ a := Nat.le_refl a.nanos

theorem eq_of_nanos (h : a.nanos = b.nanos) : a = b := by
  obtain ⟨n, hn⟩ := a
  obtain ⟨m, hm⟩ := b
  obtain rfl : n = m := h
  rfl

theorem sub_of_le (h : b ≤ a) : ∃ d, a.sub b = .ok d ∧ d.nanos = a.nanos - b.nanos := by
  unfold sub
  rw [if_pos (show b.nanos ≤ a.nanos from h)]
  exact ⟨_, rfl, rfl⟩

theorem sub_of_not_le (h : ¬ b ≤ a) : a.sub b = .error .subOverflow := if_neg h

/-- A sum is right where there is one. -/
theorem add_eq_ok : a.add b = .ok d ↔ d.nanos = a.nanos + b.nanos := by
  unfold add
  constructor
  · intro h
    split at h <;> cases h
    rfl
  · intro h
    have hlt := d.lt
    rw [h] at hlt
    rw [dif_pos hlt]
    exact congrArg Except.ok (eq_of_nanos h.symm)

theorem add_ne_subOverflow : a.add b ≠ .error .subOverflow := by
  unfold add
  split <;> nofun

theorem le_min (ha : d ≤ a) (hb : d ≤ b) : d ≤ a.min b := by
  unfold min
  split
  · exact ha
  · exact hb

theorem min_le_right : a.min b ≤ b := by
  unfold min
  split
  · assumption
  · exact le_refl b

end Duration

namespace Latency

variable {config : Latency} {draw : Draw} {d : Duration}

/-- What a link's bounds promise. -/
structure Bounded (config : Latency) : Prop where
  le : config.minMessageLatency ≤ config.maxMessageLatency
  no_underflow : ∀ draw, config.delay draw ≠ .error .subOverflow
  between : ∀ draw d, config.delay draw = .ok d →
    config.minMessageLatency ≤ d ∧ d ≤ config.maxMessageLatency

theorem ok_bind {ε α β : Type} (a : α) (f : α → Except ε β) : (Except.ok a >>= f) = f a := rfl

theorem bind_pure_map {ε α β : Type} (x : Except ε α) (f : α → β) :
    (x >>= fun a => pure (f a)) = x.map f := by
  cases x with
  | error e => rfl
  | ok a => rfl

/-- The difference is taken first. -/
theorem delay_of_le (h : config.minMessageLatency ≤ config.maxMessageLatency) (draw : Draw) :
    ∃ range : Duration, range.nanos = config.maxMessageLatency.nanos - config.minMessageLatency.nanos
      ∧ config.delay draw
        = (config.minMessageLatency.add (.fromMillis (draw.scaled range.asMillis))).map
            fun delay => delay.min config.maxMessageLatency := by
  obtain ⟨range, hsub, hrange⟩ := Duration.sub_of_le h
  refine ⟨range, hrange, ?_⟩
  rw [delay, hsub, ok_bind, bind_pure_map]

/-- **Bounds out of order panic**, whatever is drawn. -/
theorem delay_of_not_le (h : ¬ config.minMessageLatency ≤ config.maxMessageLatency) :
    config.delay draw = .error .subOverflow := by
  rw [delay, Duration.sub_of_not_le h]
  rfl

theorem delay_between (hd : config.delay draw = .ok d) :
    config.minMessageLatency ≤ d ∧ d ≤ config.maxMessageLatency := by
  by_cases h : config.minMessageLatency ≤ config.maxMessageLatency
  · obtain ⟨range, -, hdelay⟩ := delay_of_le h draw
    rw [hdelay] at hd
    cases hadd : config.minMessageLatency.add (.fromMillis (draw.scaled range.asMillis)) with
    | error e =>
      rw [hadd] at hd
      cases hd
    | ok sum =>
      rw [hadd] at hd
      cases hd
      have hle : config.minMessageLatency ≤ sum :=
        Nat.le_trans (Nat.le_add_right _ _) (Nat.le_of_eq (Duration.add_eq_ok.mp hadd).symm)
      exact ⟨Duration.le_min hle h, Duration.min_le_right⟩
  · rw [delay_of_not_le h] at hd
    cases hd

theorem bounded_iff : Bounded config ↔ config.minMessageLatency ≤ config.maxMessageLatency := by
  refine ⟨Bounded.le, fun h => ⟨h, fun draw herr => ?_, fun draw d => delay_between⟩⟩
  obtain ⟨range, -, hdelay⟩ := delay_of_le h draw
  rw [hdelay] at herr
  cases hadd : config.minMessageLatency.add (.fromMillis (draw.scaled range.asMillis)) with
  | error e =>
    rw [hadd] at herr
    cases herr
    exact absurd hadd Duration.add_ne_subOverflow
  | ok sum =>
    rw [hadd] at herr
    cases herr

/-- Equal bounds leave nothing to chance. -/
theorem delay_of_eq {value : Duration} : (Latency.mk value value).delay draw = .ok value := by
  obtain ⟨range, hrange, hdelay⟩ :=
    @delay_of_le ⟨value, value⟩ (Duration.le_refl value) draw
  have hzero : range.asMillis = 0 := by
    rw [Duration.asMillis, hrange, Nat.sub_self, Nat.zero_div]
  have hnone : (Duration.fromMillis 0).nanos = 0 := Nat.zero_mul _
  have hsum : value.add (.fromMillis 0) = .ok value := by
    rw [Duration.add_eq_ok, hnone, Nat.add_zero]
  rw [hdelay, hzero, draw.scaled_zero, hsum]
  show Except.ok (Duration.min value value) = _
  rw [Duration.min, if_pos (Duration.le_refl value)]

end Latency

namespace Topology

variable {μ : Type} {t t' : Topology μ} {op : TopOp μ}

/-- Every link's bounds are in order. -/
def Ordered (t : Topology μ) : Prop :=
  ∀ pair l, t.links.get? pair = some l → (l.effective t.config).Bounded

/-- **What a call has to look at itself**, in the state it is made in. -/
def Fine (t : Topology μ) : TopOp μ → Prop
  | .register a b => ∀ p, pair a b = .ok p → t.links.get? p = none →
    t.config.minMessageLatency ≤ t.config.maxMessageLatency
  | .setMaxMessageLatency value => t.config.minMessageLatency ≤ value ∨
    ∀ p l, t.links.get? p = some l → l.latency ≠ none
  | .setLinkMaxMessageLatency a b value => ∀ p l, pair a b = .ok p → t.links.get? p = some l →
    (l.effective t.config).minMessageLatency ≤ value
  | _ => True

/-! ## 4. One call -/

/-- The same global bounds, and every link with the bounds it had. -/
structure SameBounds (t t' : Topology μ) : Prop where
  config : t'.config = t.config
  links : ∀ p, (t'.links.get? p).map ConfiguredLink.latency
    = (t.links.get? p).map ConfiguredLink.latency

theorem SameBounds.ordered (h : SameBounds t t') (ht : t.Ordered) : t'.Ordered := by
  intro p l' hl'
  have hlinks := h.links p
  rw [hl'] at hlinks
  obtain ⟨l, hl, hlat⟩ := Option.map_eq_some_iff.mp hlinks.symm
  have hb := ht p l hl
  unfold ConfiguredLink.effective at hb ⊢
  rw [h.config, ← hlat]
  exact hb

theorem withLink_eq_ok {a b : IpAddr} {f : ConfiguredLink μ → ConfiguredLink μ} :
    t.withLink a b f = .ok t' ↔ ∃ p l, pair a b = .ok p ∧ t.links.get? p = some l
      ∧ t' = { t with links := t.links.modify p f } := by
  unfold withLink
  cases hp : pair a b with
  | error e => exact ⟨nofun, nofun⟩
  | ok p =>
    show (if t.links.contains p then _ else _) = _ ↔ _
    constructor
    · intro h
      split at h
      · rename_i hc
        obtain ⟨l, hl⟩ := IndexMap.contains_iff.mp hc
        cases h
        exact ⟨p, l, rfl, hl, rfl⟩
      · cases h
    · rintro ⟨p', l, ⟨⟩, hl, rfl⟩
      rw [if_pos (IndexMap.contains_iff.mpr ⟨l, hl⟩)]

/-- A link's states and messages change, not its bounds. -/
theorem SameBounds.modify (p : IpAddr × IpAddr) {f : ConfiguredLink μ → ConfiguredLink μ}
    (hf : ∀ l, (f l).latency = l.latency) :
    SameBounds t { t with links := t.links.modify p f } := by
  refine ⟨rfl, fun p' => ?_⟩
  show ((t.links.modify p f).get? p').map _ = _
  rw [IndexMap.get?_modify]
  split
  · rename_i heq
    rw [heq, Option.map_map]
    exact congrArg (Option.map · (t.links.get? p)) (funext hf)
  · rfl

theorem fault_sameBounds {f : Fault} {a b : IpAddr} (h : t.fault f a b = .ok t') :
    SameBounds t t' := by
  obtain ⟨p, l, -, -, rfl⟩ := withLink_eq_ok.mp h
  exact .modify p fun _ => rfl

theorem tickBy_sameBounds (t : Topology μ) (duration : Nat) :
    SameBounds t (t.tickBy duration) := by
  refine ⟨rfl, fun p => ?_⟩
  show (IndexMap.get? (IndexMap.mapValues t.links _) p).map _ = _
  rw [IndexMap.get?_mapValues, Option.map_map]
  rfl

theorem enqueueMessage_sameBounds {draw : Draw} {e : Envelope μ} {r : Except NetError Unit}
    (h : t.enqueueMessage draw e = .ok (t', r)) : SameBounds t t' := by
  obtain ⟨p, -, h⟩ := Net.bind_eq_ok.mp h
  split at h
  · cases h
    exact ⟨rfl, fun _ => rfl⟩
  · obtain ⟨delay, -, h⟩ := Net.bind_eq_ok.mp h
    split at h
    · cases h
    · cases h
      exact .modify p fun _ => rfl

theorem register_eq_ok {a b : IpAddr} : t.register a b = .ok t' ↔
    ∃ p, pair a b = .ok p ∧ t.links.get? p = none
      ∧ t' = { t with links := t.links.insert p (.new t.now) } := by
  unfold register
  cases hp : pair a b with
  | error e => exact ⟨nofun, nofun⟩
  | ok p =>
    show (if t.links.contains p then _ else _) = _ ↔ _
    constructor
    · intro h
      split at h
      · cases h
      · rename_i hc
        cases h
        exact ⟨p, rfl, IndexMap.contains_eq_false.mp (Bool.eq_false_iff.mpr hc), rfl⟩
    · rintro ⟨p', ⟨⟩, hnone, rfl⟩
      rw [IndexMap.contains_eq_false.mpr hnone]
      rfl

/-- A new link has the global bounds. -/
theorem register_ordered_iff {a b : IpAddr} (ht : t.Ordered) (h : t.register a b = .ok t') :
    t'.Ordered ↔ t.Fine (.register a b) := by
  obtain ⟨p, hp, hnone, rfl⟩ := register_eq_ok.mp h
  constructor
  · intro ht' p' hp' _
    rw [hp] at hp'
    cases hp'
    exact (ht' p (.new t.now) (by simp)).le
  · intro hfine p' l hl
    have hl' : (t.links.insert p (.new t.now)).get? p' = some l := hl
    rw [IndexMap.get?_insert] at hl'
    split at hl'
    · cases hl'
      exact Latency.bounded_iff.mpr (hfine p hp hnone)
    · exact ht p' l hl'

/-- A new global maximum is the maximum of the links without bounds of their own. -/
theorem setMaxMessageLatency_ordered_iff (ht : t.Ordered) (value : Duration) :
    (t.setMaxMessageLatency value).Ordered ↔ t.Fine (.setMaxMessageLatency value) := by
  constructor
  · intro ht'
    by_cases hall : ∀ p l, t.links.get? p = some l → l.latency ≠ none
    · exact .inr hall
    · push Not at hall
      obtain ⟨p, l, hl, hlat⟩ := hall
      have hle := (ht' p l hl).le
      rw [ConfiguredLink.effective, hlat] at hle
      exact .inl hle
  · intro hfine p l hl
    cases hlat : l.latency with
    | some own =>
      have hb := ht p l hl
      rw [ConfiguredLink.effective, hlat] at hb ⊢
      exact hb
    | none =>
      rw [ConfiguredLink.effective, hlat]
      rcases hfine with hle | hall
      · exact Latency.bounded_iff.mpr hle
      · exact absurd hlat (hall p l hl)

/-- Only the link that is set has other bounds. -/
theorem setLatency_ordered_iff {a b : IpAddr} {f : Latency → Latency} (ht : t.Ordered)
    (h : t.withLink a b (fun l => l.setLatency t.config f) = .ok t') :
    t'.Ordered ↔ ∀ p l, pair a b = .ok p → t.links.get? p = some l →
      (f (l.effective t.config)).Bounded := by
  obtain ⟨p, l, hp, hl, rfl⟩ := withLink_eq_ok.mp h
  have hget : ∀ p', (t.links.modify p fun l => l.setLatency t.config f).get? p'
      = if p' = p then (t.links.get? p).map fun l => l.setLatency t.config f
        else t.links.get? p' := fun p' => IndexMap.get?_modify _ _ _ _
  constructor
  · intro ht' p' l' hp' hl'
    rw [hp] at hp'
    cases hp'
    have hset := hget p
    rw [if_pos rfl, hl'] at hset
    exact ht' p _ hset
  · intro hb p' l' hl'
    have hset : (t.links.modify p fun l => l.setLatency t.config f).get? p' = some l' := hl'
    rw [hget] at hset
    split at hset
    · rw [hl] at hset
      cases hset
      exact hb p l hp hl
    · exact ht p' l' hset

/-- **One call.**  It keeps all bounds in order exactly if it looked at what it has to. -/
theorem step_ordered_iff (ht : t.Ordered) (h : t.step op = .ok t') : t'.Ordered ↔ t.Fine op := by
  cases op with
  | register a b => exact register_ordered_iff ht h
  | setMaxMessageLatency value =>
    cases h
    exact setMaxMessageLatency_ordered_iff ht value
  | setLinkMessageLatency a b value =>
    refine (setLatency_ordered_iff ht h).trans ⟨fun _ => trivial, fun _ p l _ _ => ?_⟩
    exact Latency.bounded_iff.mpr (Duration.le_refl value)
  | setLinkMaxMessageLatency a b value =>
    refine (setLatency_ordered_iff ht h).trans ?_
    simp only [Latency.bounded_iff]
    exact Iff.rfl
  | send draw e =>
    refine ⟨fun _ => trivial, fun _ => ?_⟩
    have h : (t.enqueueMessage draw e).map Prod.fst = .ok t' := h
    cases hsend : t.enqueueMessage draw e with
    | error panic =>
      rw [hsend] at h
      cases h
    | ok sent =>
      rw [hsend] at h
      cases h
      exact (enqueueMessage_sameBounds hsend).ordered ht
  | tickBy duration =>
    cases h
    exact ⟨fun _ => trivial, fun _ => (tickBy_sameBounds t duration).ordered ht⟩
  | fault f a b => exact ⟨fun _ => trivial, fun _ => (fault_sameBounds h).ordered ht⟩

/-- A call that panics had nothing to look at. -/
theorem fine_of_error {e : LatencyPanic} (h : t.step op = .error e) : t.Fine op := by
  cases op with
  | register a b =>
    intro p hp hnone
    have hok : t.register a b = .ok _ := register_eq_ok.mpr ⟨p, hp, hnone, rfl⟩
    exact nomatch h.symm.trans hok
  | setLinkMaxMessageLatency a b value =>
    intro p l hp hl
    have hok : t.setLinkMaxMessageLatency a b value = .ok _ :=
      withLink_eq_ok.mpr ⟨p, l, hp, hl, rfl⟩
    exact nomatch h.symm.trans hok
  | setMaxMessageLatency value => cases h
  | setLinkMessageLatency a b value => trivial
  | send draw e => trivial
  | tickBy duration => trivial
  | fault f a b => trivial

/-! ## 5. Runs -/

/-- **Latency bounds stay ordered exactly as long as their setters see to it.**  Whatever the builder
let pass, and whatever is called after it: in every state all links have their bounds in order, so
that no delay underflows and every delay lies between them, if and only if every call looks at what
it has to. -/
theorem latency_bounds_stay_ordered_iff {config : Latency} {t : Topology μ}
    (hb : buildOn config = .ok t) (ops : List (TopOp μ)) :
    (∀ before t', before <+: ops → t.run before = .ok t' → t'.Ordered) ↔
      AlongOk step Fine t ops := by
  have ht : t.Ordered := by
    unfold buildOn at hb
    split at hb
    · cases hb
      exact nofun
    · cases hb
  exact alongOk_iff (fun _ _ _ hs h => step_ordered_iff hs h) (fun _ _ _ h => fine_of_error h) ops ht

/-- Bounds of 50 and 100 milliseconds. -/
def someBounds : Latency := ⟨.fromMillis 50, .fromMillis 100⟩

def someTopology : Topology Unit := Topology.new someBounds

theorem latency_bounds_stay_ordered_iff_wider :
    buildOn someBounds = .ok someTopology ∧ ∀ before t',
      before <+: [.register (.v4 1) (.v4 2), .setMaxMessageLatency (.fromMillis 200)] →
        someTopology.run before = .ok t' → t'.Ordered := by
  have hbuild : buildOn someBounds = .ok someTopology := rfl
  refine ⟨hbuild, (latency_bounds_stay_ordered_iff hbuild _).mpr ⟨fun _ _ _ => ?_, ?_⟩⟩
  · decide
  · rintro t' ⟨⟩
    exact ⟨.inl (by decide), fun _ _ => trivial⟩

/-- A draw without faults. -/
def calm : Draw := ⟨false, false, fun _ => 0, rfl⟩

/-- **A maximum below the minimum.**  The builder would refuse 50 and 10 milliseconds; the setter
takes them, and the next message panics. -/
theorem lowered_maximum_panics :
    buildOn someBounds = .ok someTopology
      ∧ ∃ t, someTopology.run
          [.register (.v4 1) (.v4 2), .setMaxMessageLatency (.fromMillis 10)] = .ok t
        ∧ ¬ t.Ordered
        ∧ t.enqueueMessage calm ⟨⟨.v4 1, 9000⟩, ⟨.v4 2, 9000⟩, ()⟩ = .error .subOverflow := by
  refine ⟨rfl, _, rfl, fun h => ?_, rfl⟩
  have hle := (h (.v4 1, .v4 2) (.new 0) rfl).le
  exact absurd hle (by decide)

end Topology

end Turmoil.Top
