/-
# The packet scheduler

`fixture/scheduler.rs`: the clock that drives the hosts.  A tick advances the time, hands over the
scheduled packets that are due, and then decides what becomes of each packet the hosts have sent:
the installed rules are asked in order (`Net::evaluate`), and the packet is dropped, handed over at
once, or scheduled.

The queue is kept sorted by deadline and sequence number, so what is due is a prefix of it.  That
the prefix is all of it, that every scheduled packet leaves the queue once and in time, and that
packets of one deadline leave in the order they were sent, all rest on the order of the queue, which
every insertion keeps by a binary search.

Packets and rules are arbitrary here: the scheduler looks at no packet, and a rule may keep a state.
-/
import Turmoil.Lib.BinarySearch
import Turmoil.Net.Packet

namespace Turmoil.Net

/-! ## 1. Rules -/

/-- The addition of durations, in nanoseconds: the seconds of the sum fit 64 bits, or it panics. -/
def addDuration (a b : Nat) : Except Panic Nat :=
  if a + b < 2 ^ 64 * 10 ^ 9 then .ok (a + b) else .error (.expect "overflow when adding durations")

/-- What should happen to a packet. -/
inductive Verdict where
  | pass
  | deliver (delay : Nat)
  | drop
  deriving DecidableEq, Repr

variable {α ρ : Type}

/-- `Net::evaluate`: the first verdict other than `pass` wins.  The rules after it are not asked. -/
def evaluate (onPacket : ρ → α → Verdict × ρ) : List ρ → α → Verdict × List ρ
  | [], _ => (.pass, [])
  | rule :: rules, pkt =>
    match onPacket rule pkt with
    | (.pass, rule) =>
      let (v, rules) := evaluate onPacket rules pkt
      (v, rule :: rules)
    | (v, rule) => (v, rule :: rules)

/-! ## 2. The scheduler -/

/-- A packet held for later. -/
structure Scheduled (α : Type) where
  deliverAt : Nat
  seq : Nat
  pkt : α
  deriving DecidableEq, Repr

/-- The order of the queue. -/
def Scheduled.cmp (a b : Scheduled α) : Ordering :=
  (compare a.deliverAt b.deliverAt).then (compare a.seq b.seq)

/-- What became of a packet the hosts sent. -/
inductive Fate (α : Type) where
  | dropped
  | delivered
  | scheduled (entry : Scheduled α)
  deriving DecidableEq, Repr

structure Scheduler (α : Type) where
  now : Nat
  pending : List (Scheduled α)
  nextSeq : Nat
  deriving DecidableEq, Repr

/-- What a tick did: its time, the packets that were due in the order they were handed over, and
the packets the hosts sent with the verdict and the fate of each. -/
structure TickRecord (α : Type) where
  now : Nat
  due : List (Scheduled α)
  sent : List (α × Verdict × Fate α)
  deriving DecidableEq, Repr

namespace Scheduler

def new : Scheduler α := ⟨0, [], 0⟩

/-- `schedule`; the sequence number is 64 bits wide. -/
def schedule (s : Scheduler α) (pkt : α) (delay : Nat) :
    Except Panic (Scheduler α × Scheduled α) := do
  let deliverAt ← addDuration s.now delay
  if s.nextSeq + 1 < 2 ^ 64 then
    let entry : Scheduled α := ⟨deliverAt, s.nextSeq, pkt⟩
    let idx := match binarySearchBy (fun e => e.cmp entry) s.pending with
      | .ok i => i
      | .error i => i
    pure ({ s with pending := s.pending.insertIdx idx entry, nextSeq := s.nextSeq + 1 }, entry)
  else .error (.expect "attempt to add with overflow")

/-- The body of the loop over the packets the hosts sent. -/
def dispose (s : Scheduler α) (pkt : α) : Verdict → Except Panic (Scheduler α × Fate α)
  | .drop => pure (s, .dropped)
  | .pass => pure (s, .delivered)
  | .deliver delay =>
    if delay = 0 then pure (s, .delivered)
    else do
      let (s, entry) ← s.schedule pkt delay
      pure (s, .scheduled entry)

variable (onPacket : ρ → α → Verdict × ρ)

/-- The loop over the packets the hosts sent. -/
def routeAll : Scheduler α → List ρ → List α →
    Except Panic (Scheduler α × List ρ × List (α × Verdict × Fate α))
  | s, rules, [] => pure (s, rules, [])
  | s, rules, pkt :: batch => do
    let (v, rules) := evaluate onPacket rules pkt
    let (s, fate) ← s.dispose pkt v
    let (s, rules, sent) ← routeAll s rules batch
    pure (s, rules, (pkt, v, fate) :: sent)

/-- `tick`, for the packets the hosts turn out to have sent. -/
def tick (s : Scheduler α) (rules : List ρ) (dt : Nat) (batch : List α) :
    Except Panic (Scheduler α × List ρ × TickRecord α) := do
  let now ← addDuration s.now dt
  let readyEnd := (s.pending.findIdx? fun e => now < e.deliverAt).getD s.pending.length
  let due := s.pending.take readyEnd
  let s : Scheduler α := { s with now := now, pending := s.pending.drop readyEnd }
  let (s, rules, sent) ← routeAll onPacket s rules batch
  pure (s, rules, ⟨now, due, sent⟩)

/-- Any number of ticks. -/
def run : Scheduler α → List ρ → List (Nat × List α) →
    Except Panic (Scheduler α × List ρ × List (TickRecord α))
  | s, rules, [] => pure (s, rules, [])
  | s, rules, (dt, batch) :: ticks => do
    let (s, rules, r) ← s.tick onPacket rules dt batch
    let (s, rules, rs) ← run s rules ticks
    pure (s, rules, r :: rs)

end Scheduler

/-! ## 3. The order of the queue -/

/-- Earlier deadline first, then earlier number. -/
def Scheduled.Before (a b : Scheduled α) : Prop :=
  a.deliverAt < b.deliverAt ∨ a.deliverAt = b.deliverAt ∧ a.seq < b.seq

theorem Scheduled.cmp_eq_lt {a b : Scheduled α} : a.cmp b = .lt ↔ a.Before b := by
  simp only [Scheduled.cmp, Scheduled.Before, Ordering.then_eq_lt, Nat.compare_eq_lt,
    Nat.compare_eq_eq]

theorem Scheduled.cmp_eq_gt {a b : Scheduled α} : a.cmp b = .gt ↔ b.Before a := by
  simp only [Scheduled.cmp, Scheduled.Before, Ordering.then_eq_gt, Nat.compare_eq_gt,
    Nat.compare_eq_eq]
  constructor
  · rintro (h | ⟨h, h'⟩)
    · exact Or.inl h
    · exact Or.inr ⟨h.symm, h'⟩
  · rintro (h | ⟨h, h'⟩)
    · exact Or.inl h
    · exact Or.inr ⟨h.symm, h'⟩

theorem Scheduled.Before.trans {a b c : Scheduled α} (h : a.Before b) (h' : b.Before c) :
    a.Before c := by
  unfold Before at *
  omega

/-- Entries with different numbers are ordered one way or the other. -/
theorem Scheduled.before_or {a b : Scheduled α} (h : a.seq < b.seq) : a.Before b ∨ b.Before a := by
  unfold Before
  omega

/-- A sorted list splits at a new entry. -/
theorem Scheduled.split {e : Scheduled α} : ∀ {l : List (Scheduled α)}, l.Pairwise Before →
    (∀ x ∈ l, x.seq < e.seq) → ∃ before after, l = before ++ after
      ∧ (∀ x ∈ before, x.Before e) ∧ ∀ x ∈ after, e.Before x
  | [], _, _ => ⟨[], [], rfl, nofun, nofun⟩
  | first :: l, hl, hseq => by
    obtain ⟨hhead, hl⟩ := List.pairwise_cons.mp hl
    rcases before_or (hseq first List.mem_cons_self) with he | he
    · obtain ⟨before, after, rfl, hb, ha⟩ :=
        split hl fun x hx => hseq x (List.mem_cons_of_mem first hx)
      refine ⟨first :: before, after, rfl, fun x hx => ?_, ha⟩
      rcases List.mem_cons.mp hx with rfl | hx
      · exact he
      · exact hb x hx
    · refine ⟨[], first :: l, rfl, nofun, fun x hx => ?_⟩
      rcases List.mem_cons.mp hx with rfl | hx
      · exact he
      · exact he.trans (hhead x hx)

namespace Scheduler

variable {onPacket : ρ → α → Verdict × ρ} {s s' : Scheduler α} {rules rules' : List ρ}

/-- The invariant: the queue is sorted, numbered so far, and nothing in it is due. -/
structure Ordered (s : Scheduler α) : Prop where
  sorted : s.pending.Pairwise Scheduled.Before
  numbered : ∀ e ∈ s.pending, e.seq < s.nextSeq
  future : ∀ e ∈ s.pending, s.now < e.deliverAt

theorem new_ordered : (new : Scheduler α).Ordered := ⟨.nil, nofun, nofun⟩

theorem addDuration_eq {a b c : Nat} (h : addDuration a b = .ok c) : c = a + b := by
  unfold addDuration at h
  split at h
  · cases h
    rfl
  · cases h

/-- **An insertion** keeps the queue sorted, and adds the one entry. -/
theorem schedule_ordered (hs : s.Ordered) {pkt : α} {delay : Nat} {entry : Scheduled α}
    (hpos : 0 < delay) (h : s.schedule pkt delay = .ok (s', entry)) :
    s'.Ordered ∧ entry = ⟨s.now + delay, s.nextSeq, pkt⟩ ∧ s'.now = s.now
      ∧ s'.nextSeq = s.nextSeq + 1 ∧ ∀ e, e ∈ s'.pending ↔ e = entry ∨ e ∈ s.pending := by
  obtain ⟨deliverAt, hat, h⟩ := bind_eq_ok.mp h
  have hat := addDuration_eq hat
  split at h
  · cases h
    obtain ⟨before, after, heq, hb, ha⟩ :=
      Scheduled.split (e := ⟨deliverAt, s.nextSeq, pkt⟩) hs.sorted hs.numbered
    have hidx : binarySearchBy (fun e => e.cmp ⟨deliverAt, s.nextSeq, pkt⟩) s.pending
        = .error before.length := by
      rw [heq]
      exact binarySearchBy_split (fun e he => Scheduled.cmp_eq_lt.mpr (hb e he))
        fun e he => Scheduled.cmp_eq_gt.mpr (ha e he)
    have hins : s.pending.insertIdx before.length ⟨deliverAt, s.nextSeq, pkt⟩
        = before ++ ⟨deliverAt, s.nextSeq, pkt⟩ :: after := by
      rw [heq]
      exact insertIdx_split _ after before
    have hmem : ∀ e, e ∈ before ++ ⟨deliverAt, s.nextSeq, pkt⟩ :: after
        ↔ e = ⟨deliverAt, s.nextSeq, pkt⟩ ∨ e ∈ s.pending := by
      intro e
      rw [heq]
      simp only [List.mem_append, List.mem_cons]
      tauto
    simp only [hidx, hins]
    have hsorted := hs.sorted
    rw [heq, List.pairwise_append] at hsorted
    refine ⟨⟨?_, ?_, ?_⟩, by rw [hat], trivial, trivial, hmem⟩
    · refine List.pairwise_append.mpr ⟨hsorted.1, List.pairwise_cons.mpr ⟨ha, hsorted.2.1⟩, ?_⟩
      intro x hx y hy
      rcases List.mem_cons.mp hy with rfl | hy
      · exact hb x hx
      · exact hsorted.2.2 x hx y hy
    · intro e he
      rcases (hmem e).mp he with rfl | he
      · exact Nat.lt_succ_self _
      · exact Nat.lt_succ_of_lt (hs.numbered e he)
    · intro e he
      rcases (hmem e).mp he with rfl | he
      · exact hat ▸ Nat.lt_add_of_pos_right hpos
      · exact hs.future e he
  · cases h

/-! ## 4. One tick -/

end Scheduler

/-- The entry of a packet that was scheduled. -/
def Fate.queued? : Fate α → Option (Scheduled α)
  | .scheduled entry => some entry
  | _ => none

/-- What a verdict at time `now` makes of a packet. -/
def Fate.Fits (now : Nat) (pkt : α) : Verdict → Fate α → Prop
  | .drop, .dropped => True
  | .pass, .delivered => True
  | .deliver delay, .delivered => delay = 0
  | .deliver delay, .scheduled entry =>
    0 < delay ∧ entry.deliverAt = now + delay ∧ entry.pkt = pkt
  | _, _ => False

/-- The entries of the packets that were scheduled, in the order they were sent. -/
def entries (sent : List (α × Verdict × Fate α)) : List (Scheduled α) :=
  sent.filterMap fun x => x.2.2.queued?

def TickRecord.scheduled (r : TickRecord α) : List (Scheduled α) := entries r.sent

namespace Scheduler

/-- What the loop over the packets of a tick does. -/
structure Routed (s s' : Scheduler α) (batch : List α) (sent : List (α × Verdict × Fate α)) :
    Prop where
  ordered : s'.Ordered
  now : s'.now = s.now
  nextSeq : s.nextSeq ≤ s'.nextSeq
  batch : sent.map Prod.fst = batch
  fits : ∀ x ∈ sent, Fate.Fits s.now x.1 x.2.1 x.2.2
  numbered : (entries sent).Pairwise fun a b => a.seq < b.seq
  fresh : ∀ e ∈ entries sent, s.nextSeq ≤ e.seq ∧ e.seq < s'.nextSeq ∧ s.now < e.deliverAt
  pending : ∀ e, e ∈ s'.pending ↔ e ∈ entries sent ∨ e ∈ s.pending

/-- One packet is dropped, handed over, or scheduled. -/
theorem dispose_routed (hs : s.Ordered) {pkt : α} {v : Verdict} {fate : Fate α}
    (h : s.dispose pkt v = .ok (s', fate)) : Routed s s' [pkt] [(pkt, v, fate)] := by
  have hidle : fate.queued? = none → Fate.Fits s.now pkt v fate → s' = s →
      Routed s s' [pkt] [(pkt, v, fate)] := by
    rintro hnone hfits rfl
    have hnil : entries [(pkt, v, fate)] = [] := by
      simp [entries, hnone]
    refine ⟨hs, rfl, Nat.le_refl _, rfl, fun x hx => ?_, ?_, ?_, ?_⟩
    · rw [List.mem_singleton.mp hx]
      exact hfits
    · rw [hnil]
      exact .nil
    · rw [hnil]
      nofun
    · rw [hnil]
      simp
  cases v with
  | drop =>
    cases h
    exact hidle rfl trivial rfl
  | pass =>
    cases h
    exact hidle rfl trivial rfl
  | deliver delay =>
    simp only [dispose] at h
    split at h
    · rename_i h0
      cases h
      exact hidle rfl h0 rfl
    · rename_i h0
      obtain ⟨⟨s1, entry⟩, h1, h⟩ := bind_eq_ok.mp h
      cases h
      have hpos := Nat.pos_of_ne_zero h0
      obtain ⟨hord, hentry, hnow, hnext, hmem⟩ := schedule_ordered hs hpos h1
      have hone : entries [(pkt, Verdict.deliver delay, Fate.scheduled entry)] = [entry] := rfl
      refine ⟨hord, hnow, hnext ▸ Nat.le_succ _, rfl, fun x hx => ?_, ?_, ?_, ?_⟩
      · rw [List.mem_singleton.mp hx]
        exact ⟨hpos, by rw [hentry], by rw [hentry]⟩
      · rw [hone]
        exact List.pairwise_singleton _ _
      · rw [hone]
        intro e he
        rw [List.mem_singleton.mp he, hentry]
        exact ⟨Nat.le_refl _, hnext ▸ Nat.lt_succ_self _, Nat.lt_add_of_pos_right hpos⟩
      · intro e
        rw [hone, List.mem_singleton]
        exact hmem e

theorem Routed.append {s'' : Scheduler α} {batch batch' : List α}
    {sent sent' : List (α × Verdict × Fate α)} (h : Routed s s' batch sent)
    (h' : Routed s' s'' batch' sent') : Routed s s'' (batch ++ batch') (sent ++ sent') := by
  have happ : entries (sent ++ sent') = entries sent ++ entries sent' := List.filterMap_append
  refine ⟨h'.ordered, h'.now.trans h.now, Nat.le_trans h.nextSeq h'.nextSeq, ?_, ?_, ?_, ?_, ?_⟩
  · rw [List.map_append, h.batch, h'.batch]
  · intro x hx
    rcases List.mem_append.mp hx with hx | hx
    · exact h.fits x hx
    · exact h.now ▸ h'.fits x hx
  · rw [happ, List.pairwise_append]
    refine ⟨h.numbered, h'.numbered, fun a ha b hb => ?_⟩
    exact Nat.lt_of_lt_of_le (h.fresh a ha).2.1 (h'.fresh b hb).1
  · rw [happ]
    intro e he
    rcases List.mem_append.mp he with he | he
    · obtain ⟨h1, h2, h3⟩ := h.fresh e he
      exact ⟨h1, Nat.lt_of_lt_of_le h2 h'.nextSeq, h3⟩
    · obtain ⟨h1, h2, h3⟩ := h'.fresh e he
      exact ⟨Nat.le_trans h.nextSeq h1, h2, h.now ▸ h3⟩
  · intro e
    rw [h'.pending, h.pending, happ, List.mem_append]
    tauto

/-- **The packets of a tick**: each has one fate, and the queue gains what was scheduled. -/
theorem routeAll_routed : ∀ {batch : List α} {s s' : Scheduler α} {rules rules' : List ρ}
    {sent : List (α × Verdict × Fate α)}, s.Ordered →
      routeAll onPacket s rules batch = .ok (s', rules', sent) → Routed s s' batch sent := by
  intro batch
  induction batch with
  | nil =>
    intro s s' rules rules' sent hs h
    cases h
    exact ⟨hs, rfl, Nat.le_refl _, rfl, nofun, .nil, nofun, fun e => by simp [entries]⟩
  | cons pkt batch ih =>
    intro s s' rules rules' sent hs h
    obtain ⟨⟨s1, fate⟩, h1, h⟩ := bind_eq_ok.mp h
    obtain ⟨⟨s2, rules2, sent2⟩, h2, h⟩ := bind_eq_ok.mp h
    cases h
    have hone := dispose_routed hs h1
    exact hone.append (ih hone.ordered h2)

/-- What is due is a prefix of a sorted queue. -/
theorem due_prefix (now : Nat) : ∀ {l : List (Scheduled α)}, l.Pairwise Scheduled.Before →
    l.take ((l.findIdx? fun e => now < e.deliverAt).getD l.length)
        = l.filter (fun e => e.deliverAt ≤ now)
      ∧ l.drop ((l.findIdx? fun e => now < e.deliverAt).getD l.length)
        = l.filter fun e => now < e.deliverAt
  | [], _ => ⟨rfl, rfl⟩
  | e :: l, hl => by
    obtain ⟨hhead, hl⟩ := List.pairwise_cons.mp hl
    obtain ⟨h1, h2⟩ := due_prefix now hl
    rw [List.findIdx?_cons]
    by_cases he : now < e.deliverAt
    · -- everything behind it is later
      have hlater : ∀ x ∈ l, now < x.deliverAt := by
        intro x hx
        have := hhead x hx
        unfold Scheduled.Before at this
        omega
      rw [if_pos (by simpa using he)]
      constructor
      · rw [List.filter_cons_of_neg (by simpa using he), Option.getD_some, List.take_zero,
          List.filter_eq_nil_iff.mpr fun x hx => by simpa using hlater x hx]
      · rw [List.filter_cons_of_pos (by simpa using he), Option.getD_some, List.drop_zero,
          List.filter_eq_self.mpr fun x hx => by simpa using hlater x hx]
    · rw [if_neg (by simpa using he)]
      have hgetD : ((l.findIdx? fun e => decide (now < e.deliverAt)).map (· + 1)).getD
          (e :: l).length = (l.findIdx? fun e => decide (now < e.deliverAt)).getD l.length + 1 := by
        cases l.findIdx? fun e => decide (now < e.deliverAt) <;> rfl
      rw [hgetD, List.take_succ_cons, List.drop_succ_cons, h1, h2]
      constructor
      · rw [List.filter_cons_of_pos (by simpa using he)]
      · rw [List.filter_cons_of_neg (by simpa using he)]

/-- What a tick does. -/
structure Ticked (s s' : Scheduler α) (dt : Nat) (batch : List α) (r : TickRecord α) : Prop where
  ordered : s'.Ordered
  time : r.now = s.now + dt
  now : s'.now = r.now
  nextSeq : s.nextSeq ≤ s'.nextSeq
  batch : r.sent.map Prod.fst = batch
  fits : ∀ x ∈ r.sent, Fate.Fits r.now x.1 x.2.1 x.2.2
  numbered : r.scheduled.Pairwise fun a b => a.seq < b.seq
  fresh : ∀ e ∈ r.scheduled, s.nextSeq ≤ e.seq ∧ e.seq < s'.nextSeq ∧ r.now < e.deliverAt
  sorted : r.due.Pairwise Scheduled.Before
  due : ∀ e, e ∈ r.due ↔ e ∈ s.pending ∧ e.deliverAt ≤ r.now
  pending : ∀ e, e ∈ s'.pending ↔ e ∈ r.scheduled ∨ e ∈ s.pending ∧ r.now < e.deliverAt

theorem tick_ticked (hs : s.Ordered) {dt : Nat} {batch : List α} {r : TickRecord α}
    (h : s.tick onPacket rules dt batch = .ok (s', rules', r)) : Ticked s s' dt batch r := by
  obtain ⟨now, hnow, h⟩ := bind_eq_ok.mp h
  have hnow := addDuration_eq hnow
  obtain ⟨⟨s1, rules1, sent⟩, h1, h⟩ := bind_eq_ok.mp h
  cases h
  obtain ⟨hdue, hrest⟩ := due_prefix now hs.sorted
  rw [hrest] at h1
  have hord : ({ s with now := now, pending := s.pending.filter fun e => now < e.deliverAt } :
      Scheduler α).Ordered := by
    refine ⟨hs.sorted.filter _, fun e he => ?_, fun e he => ?_⟩
    · exact hs.numbered e (List.mem_of_mem_filter he)
    · simpa using (List.mem_filter.mp he).2
  have hr := routeAll_routed hord h1
  refine ⟨hr.ordered, hnow, hr.now, hr.nextSeq, hr.batch, hr.fits, hr.numbered, hr.fresh, ?_,
    fun e => ?_, fun e => ?_⟩
  · rw [hdue]
    exact hs.sorted.filter _
  · rw [hdue, List.mem_filter, decide_eq_true_eq]
  · rw [hr.pending e, List.mem_filter, decide_eq_true_eq]
    rfl

/-! ## 5. Every run -/

theorem run_cons {dt : Nat} {batch : List α} {ticks : List (Nat × List α)}
    {rs : List (TickRecord α)}
    (h : run onPacket s rules ((dt, batch) :: ticks) = .ok (s', rules', rs)) :
    ∃ s1 rules1 r rs1, s.tick onPacket rules dt batch = .ok (s1, rules1, r)
      ∧ run onPacket s1 rules1 ticks = .ok (s', rules', rs1) ∧ rs = r :: rs1 := by
  obtain ⟨⟨s1, rules1, r⟩, h1, h⟩ := bind_eq_ok.mp h
  obtain ⟨⟨s2, rules2, rs1⟩, h2, h⟩ := bind_eq_ok.mp h
  cases h
  exact ⟨s1, rules1, r, rs1, h1, h2, rfl⟩

/-- The times at which the ticks from `now` on take place. -/
def times : Nat → List (Nat × List α) → List Nat
  | _, [] => []
  | now, (dt, _) :: ticks => (now + dt) :: times (now + dt) ticks

/-- **What holds of a whole run**, record by record: at what time each tick took place, that every
packet sent met one fate of the rules, and that the sequence numbers grow over the run and not only
within a tick.  The parts are shown in one induction, since the number from which a tick counts is
where the one before has stopped. -/
theorem run_ordered : ∀ {ticks : List (Nat × List α)} {s s' : Scheduler α} {rules rules' : List ρ}
    {rs : List (TickRecord α)}, s.Ordered → run onPacket s rules ticks = .ok (s', rules', rs) →
    s'.Ordered ∧ rs.map TickRecord.now = times s.now ticks
      ∧ List.Forall₂ (fun t r => r.sent.map Prod.fst = t.2
        ∧ ∀ x ∈ r.sent, Fate.Fits r.now x.1 x.2.1 x.2.2) ticks rs
      ∧ (rs.flatMap TickRecord.scheduled).Pairwise (fun a b => a.seq < b.seq)
      ∧ (∀ e ∈ rs.flatMap TickRecord.scheduled, s.nextSeq ≤ e.seq)
      ∧ ∀ r ∈ rs, r.due.Pairwise Scheduled.Before := by
  intro ticks
  induction ticks with
  | nil =>
    intro s s' rules rules' rs hs h
    cases h
    exact ⟨hs, rfl, .nil, .nil, nofun, nofun⟩
  | cons t ticks ih =>
    intro s s' rules rules' rs hs h
    obtain ⟨dt, batch⟩ := t
    obtain ⟨s1, rules1, r, rs1, h1, h2, rfl⟩ := run_cons h
    have ht := tick_ticked hs h1
    obtain ⟨hord, htimes, hall, hnum, hfresh, hdue⟩ := ih ht.ordered h2
    refine ⟨hord, ?_, .cons ⟨ht.batch, ht.fits⟩ hall, ?_, ?_, ?_⟩
    · rw [List.map_cons, htimes, times, ht.now, ht.time]
    · rw [List.flatMap_cons, List.pairwise_append]
      refine ⟨ht.numbered, hnum, fun a ha b hb => ?_⟩
      exact Nat.lt_of_lt_of_le (ht.fresh a ha).2.1 (hfresh b hb)
    · intro e he
      rw [List.flatMap_cons] at he
      rcases List.mem_append.mp he with he | he
      · exact (ht.fresh e he).1
      · exact Nat.le_trans ht.nextSeq (hfresh e he)
    · intro x hx
      rcases List.mem_cons.mp hx with rfl | hx
      · exact ht.sorted
      · exact hdue x hx

/-- An entry that has left the queue does not come back. -/
theorem run_gone : ∀ {ticks : List (Nat × List α)} {s s' : Scheduler α} {rules rules' : List ρ}
    {rs : List (TickRecord α)}, s.Ordered → run onPacket s rules ticks = .ok (s', rules', rs) →
    ∀ {e : Scheduled α}, e.seq < s.nextSeq → e ∉ s.pending → ∀ r ∈ rs, e ∉ r.due := by
  intro ticks
  induction ticks with
  | nil =>
    intro s s' rules rules' rs _ h
    cases h
    nofun
  | cons t ticks ih =>
    intro s s' rules rules' rs hs h e hseq hgone x hx
    obtain ⟨dt, batch⟩ := t
    obtain ⟨s1, rules1, r, rs1, h1, h2, rfl⟩ := run_cons h
    have ht := tick_ticked hs h1
    rcases List.mem_cons.mp hx with rfl | hx
    · exact fun he => hgone ((ht.due e).mp he).1
    · refine ih ht.ordered h2 (Nat.lt_of_lt_of_le hseq ht.nextSeq) (fun he => ?_) x hx
      rcases (ht.pending e).mp he with he | he
      · have := (ht.fresh e he).1
        omega
      · exact hgone he.1

/-- An entry in the queue leaves it in the first tick whose time is its deadline or later. -/
theorem run_pending : ∀ {ticks : List (Nat × List α)} {s s' : Scheduler α} {rules rules' : List ρ}
    {rs : List (TickRecord α)}, s.Ordered → run onPacket s rules ticks = .ok (s', rules', rs) →
    ∀ {e : Scheduled α}, e ∈ s.pending → ∀ {j : Nat} {r : TickRecord α}, rs[j]? = some r →
      (e ∈ r.due ↔ e.deliverAt ≤ r.now ∧ ∀ k r', k < j → rs[k]? = some r' →
        r'.now < e.deliverAt) := by
  intro ticks
  induction ticks with
  | nil =>
    intro s s' rules rules' rs _ h
    cases h
    nofun
  | cons t ticks ih =>
    intro s s' rules rules' rs hs h e he j x hx
    obtain ⟨dt, batch⟩ := t
    obtain ⟨s1, rules1, r, rs1, h1, h2, rfl⟩ := run_cons h
    have ht := tick_ticked hs h1
    cases j with
    | zero =>
      cases hx
      rw [ht.due e]
      exact ⟨fun h => ⟨h.2, nofun⟩, fun h => ⟨he, h.1⟩⟩
    | succ j =>
      rw [List.getElem?_cons_succ] at hx
      by_cases hdue : e.deliverAt ≤ r.now
      · -- it left in this tick
        have hgone : e ∉ s1.pending := by
          intro hmem
          rcases (ht.pending e).mp hmem with hmem | hmem
          · have := (ht.fresh e hmem).1
            have := hs.numbered e he
            omega
          · omega
        have hno := run_gone ht.ordered h2 (Nat.lt_of_lt_of_le (hs.numbered e he) ht.nextSeq) hgone
          x (List.mem_of_getElem? hx)
        refine ⟨fun hmem => absurd hmem hno, fun hall => ?_⟩
        have := hall.2 0 r (Nat.succ_pos j) rfl
        omega
      · have hstill : e ∈ s1.pending := (ht.pending e).mpr (Or.inr ⟨he, Nat.lt_of_not_le hdue⟩)
        rw [ih ht.ordered h2 hstill hx]
        constructor
        · rintro ⟨h3, h4⟩
          refine ⟨h3, fun k r' hk hr' => ?_⟩
          cases k with
          | zero =>
            cases hr'
            exact Nat.lt_of_not_le hdue
          | succ k => exact h4 k r' (Nat.lt_of_succ_lt_succ hk) hr'
        · rintro ⟨h3, h4⟩
          exact ⟨h3, fun k r' hk hr' => h4 (k + 1) r' (Nat.succ_lt_succ hk) hr'⟩

/-- An entry leaves the queue after the tick it was made in, in the first tick whose time is its
deadline or later. -/
theorem run_scheduled : ∀ {ticks : List (Nat × List α)} {s s' : Scheduler α}
    {rules rules' : List ρ} {rs : List (TickRecord α)}, s.Ordered →
    run onPacket s rules ticks = .ok (s', rules', rs) →
    ∀ {i j : Nat} {ri rj : TickRecord α} {e : Scheduled α}, rs[i]? = some ri → rs[j]? = some rj →
      e ∈ ri.scheduled → (e ∈ rj.due ↔ i < j ∧ e.deliverAt ≤ rj.now
        ∧ ∀ k rk, i < k → k < j → rs[k]? = some rk → rk.now < e.deliverAt) := by
  intro ticks
  induction ticks with
  | nil =>
    intro s s' rules rules' rs _ h
    cases h
    nofun
  | cons t ticks ih =>
    intro s s' rules rules' rs hs h i j ri rj e hi hj he
    obtain ⟨dt, batch⟩ := t
    have hall := run_ordered hs h
    obtain ⟨s1, rules1, r, rs1, h1, h2, rfl⟩ := run_cons h
    have ht := tick_ticked hs h1
    have hseq : s.nextSeq ≤ e.seq :=
      hall.2.2.2.2.1 e (List.mem_flatMap.mpr ⟨ri, List.mem_of_getElem? hi, he⟩)
    cases j with
    | zero =>
      cases hj
      refine ⟨fun hdue => ?_, fun h => absurd h.1 (Nat.not_lt_zero i)⟩
      have := hs.numbered e ((ht.due e).mp hdue).1
      omega
    | succ j =>
      rw [List.getElem?_cons_succ] at hj
      cases i with
      | zero =>
        cases hi
        rw [run_pending ht.ordered h2 ((ht.pending e).mpr (Or.inl he)) hj]
        constructor
        · rintro ⟨h3, h4⟩
          refine ⟨Nat.succ_pos j, h3, fun k rk h0 hk hrk => ?_⟩
          cases k with
          | zero => exact absurd h0 (Nat.lt_irrefl 0)
          | succ k => exact h4 k rk (Nat.lt_of_succ_lt_succ hk) hrk
        · rintro ⟨-, h3, h4⟩
          exact ⟨h3, fun k rk hk hrk => h4 (k + 1) rk (Nat.succ_pos k) (Nat.succ_lt_succ hk) hrk⟩
      | succ i =>
        rw [List.getElem?_cons_succ] at hi
        rw [ih ht.ordered h2 hi hj he, Nat.succ_lt_succ_iff]
        refine and_congr_right fun _ => and_congr_right fun _ => ?_
        constructor
        · intro h4 k rk h0 hk hrk
          cases k with
          | zero => exact absurd h0 (Nat.not_lt_zero _)
          | succ k => exact h4 k rk (Nat.lt_of_succ_lt_succ h0) (Nat.lt_of_succ_lt_succ hk) hrk
        · intro h4 k rk h0 hk hrk
          exact h4 (k + 1) rk (Nat.succ_lt_succ h0) (Nat.succ_lt_succ hk) hrk

/-- What leaves the queue was in it at the start, or was scheduled in an earlier tick. -/
theorem run_due : ∀ {ticks : List (Nat × List α)} {s s' : Scheduler α} {rules rules' : List ρ}
    {rs : List (TickRecord α)}, s.Ordered → run onPacket s rules ticks = .ok (s', rules', rs) →
    ∀ {j : Nat} {rj : TickRecord α} {e : Scheduled α}, rs[j]? = some rj → e ∈ rj.due →
      e ∈ s.pending ∨ ∃ i ri, i < j ∧ rs[i]? = some ri ∧ e ∈ ri.scheduled := by
  intro ticks
  induction ticks with
  | nil =>
    intro s s' rules rules' rs _ h
    cases h
    nofun
  | cons t ticks ih =>
    intro s s' rules rules' rs hs h j rj e hj he
    obtain ⟨dt, batch⟩ := t
    obtain ⟨s1, rules1, r, rs1, h1, h2, rfl⟩ := run_cons h
    have ht := tick_ticked hs h1
    cases j with
    | zero =>
      cases hj
      exact Or.inl ((ht.due e).mp he).1
    | succ j =>
      rw [List.getElem?_cons_succ] at hj
      rcases ih ht.ordered h2 hj he with hmem | ⟨i, ri, hi, hri, hmem⟩
      · rcases (ht.pending e).mp hmem with hmem | hmem
        · exact Or.inr ⟨0, r, Nat.succ_pos j, rfl, hmem⟩
        · exact Or.inl hmem.1
      · exact Or.inr ⟨i + 1, ri, Nat.succ_lt_succ hi, hri, hmem⟩

/-- **Order and fate of every packet.**  In every run of ticks, whatever the hosts send and whatever
the rules say:

* the queue is strictly sorted by deadline and number;
* the ticks take place at the sums of their steps;
* every packet the hosts send has one fate, the one its verdict asks for, and a scheduled packet
  has one entry: the numbers of the entries increase in the order the packets were sent;
* an entry is handed over in the first later tick whose time is its deadline or later, and in no
  other; what is handed over is strictly sorted, and was scheduled before. -/
theorem packet_fates (rules : List ρ) (ticks : List (Nat × List α)) {rs : List (TickRecord α)}
    (h : run onPacket new rules ticks = .ok (s, rules', rs)) :
    s.pending.Pairwise Scheduled.Before
      ∧ rs.map TickRecord.now = times 0 ticks
      ∧ List.Forall₂ (fun t r => r.sent.map Prod.fst = t.2
        ∧ ∀ x ∈ r.sent, Fate.Fits r.now x.1 x.2.1 x.2.2) ticks rs
      ∧ (rs.flatMap TickRecord.scheduled).Pairwise (fun a b => a.seq < b.seq)
      ∧ (∀ (i j : Nat) (ri rj : TickRecord α), rs[i]? = some ri → rs[j]? = some rj →
        ∀ e ∈ ri.scheduled, (e ∈ rj.due ↔ i < j ∧ e.deliverAt ≤ rj.now
          ∧ ∀ k rk, i < k → k < j → rs[k]? = some rk → rk.now < e.deliverAt))
      ∧ ∀ (j : Nat) (rj : TickRecord α), rs[j]? = some rj → rj.due.Pairwise Scheduled.Before
        ∧ ∀ e ∈ rj.due, ∃ i ri, i < j ∧ rs[i]? = some ri ∧ e ∈ ri.scheduled := by
  obtain ⟨hord, htimes, hall, hnum, -, hdue⟩ := run_ordered new_ordered h
  refine ⟨hord.sorted, htimes, hall, hnum, fun i j ri rj hi hj e he => ?_, fun j rj hj => ?_⟩
  · exact run_scheduled new_ordered h hi hj he
  · refine ⟨hdue rj (List.mem_of_getElem? hj), fun e he => ?_⟩
    rcases run_due new_ordered h hj he with hmem | hmem
    · cases hmem
    · exact hmem

/-- A rule that delays by the packet's own number, and lets a packet `0` pass. -/
def delayRule : Unit → Nat → Verdict × Unit
  | _, 0 => (.pass, ())
  | _, n + 1 => (if n = 0 then .drop else .deliver n, ())

/-- The records of a run in which a packet overtakes two that were sent before it. -/
def overtaking : List (TickRecord Nat) :=
  [⟨1, [], [(5, .deliver 4, .scheduled ⟨5, 0, 5⟩), (0, .pass, .delivered), (1, .drop, .dropped)]⟩,
    ⟨3, [], [(3, .deliver 2, .scheduled ⟨5, 1, 3⟩), (2, .deliver 1, .scheduled ⟨4, 2, 2⟩)]⟩,
    ⟨5, [⟨4, 2, 2⟩, ⟨5, 0, 5⟩, ⟨5, 1, 3⟩], []⟩]

/-- The packet of the earlier deadline leaves first, the two of one deadline in the order they were
sent. -/
theorem packet_fates_overtaking :
    run delayRule new [()] [(1, [5, 0, 1]), (2, [3, 2]), (2, [])] = .ok (⟨5, [], 3⟩, [()], overtaking)
      ∧ (overtaking.flatMap TickRecord.scheduled).Pairwise (fun a b => a.seq < b.seq) := by
  have hrun : run delayRule new [()] [(1, [5, 0, 1]), (2, [3, 2]), (2, [])]
      = .ok (⟨5, [], 3⟩, [()], overtaking) := toOption_eq_some.mp (by decide)
  exact ⟨hrun, (packet_fates [()] _ hrun).2.2.2.1⟩

end Scheduler

end Turmoil.Net
