/-
# The retransmission budget

`check_retx` keeps two counters in a control block: the passes since the last acknowledgement or
rewind, and the rewinds since the last acknowledgement.  A connection is given up when both are
used up.  What that means is said here in terms of the history instead: a ledger is opened anew
when the handshake completes and whenever `snd_una` moves, and records the passes before each
rewind (`Ledger.next`).

The counters serve the handshake as well, and only an acknowledgement of data resets them.  So
what the handshake has used up is missing from the budget of the data.  `retransmit_budget_iff`:
the budget is spent in full when a connection is given up if and only if the counters were at zero
when the ledger was opened; and they are, unless it was opened by the handshake.
-/
import Turmoil.Net.Stages

namespace Turmoil.Net

/-! ## 1. The ledger -/

/-- Since the handshake completed or `snd_una` moved: the counters as they stood then, the passes
before each rewind (the last first), and the passes after it.  A pass counts if something was
outstanding. -/
structure Ledger where
  leftover : Nat × Nat
  rounds : List Nat
  passes : Nat
  deriving DecidableEq

namespace Ledger

def openedAt (t : Tcb) : Ledger := ⟨(t.egressSinceAck, t.retxAttempts), [], 0⟩

/-- The handshake completed, or `snd_una` moved. -/
def progressed (t t' : Tcb) : Bool :=
  t.state.handshake && t'.state == .established || t'.sndUna != t.sndUna

/-- The ledger after a stage that made `t'` of `t`. -/
def next (l : Ledger) (x : Stage) (t t' : Tcb) : Ledger :=
  if progressed t t' then openedAt t'
  else
    match x with
    | .checkRetx =>
      if t.awaitsAck then
        if t'.sndNxt != t.sndNxt then { l with rounds := (l.passes + 1) :: l.rounds, passes := 0 }
        else { l with passes := l.passes + 1 }
      else l
    | _ => l

/-- The whole budget was spent: as many rewinds as there may be, with as many passes before each of
them, and before the pass that gives up, that one included. -/
structure Spent (cfg : KernelConfig) (l : Ledger) : Prop where
  rewinds : l.rounds.length = cfg.retxMax
  rounds : ∀ n ∈ l.rounds, cfg.retxThreshold ≤ n
  last : cfg.retxThreshold ≤ l.passes + 1

end Ledger

namespace Kernel

/-- The ledger of a socket after one stage. -/
def entered (fd : Fd) (k k' : Kernel) (l : Ledger) (x : Stage) : Ledger :=
  match k.conn? fd, k'.conn? fd with
  | some c, some c' => l.next x c.tcb c'.tcb
  | _, _ => l

/-- The ledger of a socket after a sequence of stages. -/
def ledger (fd : Fd) : Kernel → Ledger → List Stage → Ledger
  | _, l, [] => l
  | k, l, x :: xs =>
    match k.stage x with
    | .error _ => l
    | .ok k' => k'.ledger fd (entered fd k k' l x) xs

end Kernel

/-! ## 2. What moves the counters -/

namespace Tcb

variable {cfg : KernelConfig} {t t' : Tcb}

/-- Nothing that the ledger looks at has changed. -/
structure Steady (t t' : Tcb) : Prop where
  una : t'.sndUna = t.sndUna
  since : t'.egressSinceAck = t.egressSinceAck
  attempts : t'.retxAttempts = t.retxAttempts
  handshake : t'.state.handshake = t.state.handshake
  closed : t.state = .closed → t'.state = .closed

theorem Steady.refl (t : Tcb) : t.Steady t := ⟨rfl, rfl, rfl, rfl, id⟩

theorem Steady.trans {t'' : Tcb} (h : t.Steady t') (h' : t'.Steady t'') : t.Steady t'' where
  una := h'.una.trans h.una
  since := h'.since.trans h.since
  attempts := h'.attempts.trans h.attempts
  handshake := h'.handshake.trans h.handshake
  closed := fun hc => h'.closed (h.closed hc)

theorem Steady.shutWrite (t : Tcb) : t.Steady t.shutWrite := by
  refine ⟨rfl, rfl, rfl, ?_, fun hc => ?_⟩
  · show t.state.onShutdown.handshake = _
    cases t.state <;> rfl
  · show t.state.onShutdown = _
    rw [hc]
    rfl

/-- The calls of the application leave the counters alone. -/
theorem Steady.act {a : TcbAct} {loc rem : SocketAddr} {segs : List TcpSegment}
    (ha : ∀ s, a ≠ .inbound s) (hs : a.isSweep = false) (h : t.act cfg loc rem a = .ok (t', segs)) :
    t.Steady t' := by
  cases a with
  | inbound s => exact absurd rfl (ha s)
  | send buf =>
    cases h
    unfold pollSend
    split
    · exact .refl t
    · split
      · exact .refl t
      · split
        · exact .refl t
        · dsimp only
          split
          · exact .refl t
          · exact ⟨rfl, rfl, rfl, rfl, id⟩
  | shutdown =>
    cases h
    unfold pollShutdownWrite
    split
    · exact .refl t
    · split
      · exact .refl t
      · exact .shutWrite t
  | recv lens =>
    cases h
    unfold pollRecvVectored
    split
    · exact .refl t
    · split
      · split
        · exact .refl t
        · split <;> exact .refl t
      · exact ⟨rfl, rfl, rfl, rfl, id⟩
  | linger =>
    cases h
    split
    · exact .refl t
    · exact .shutWrite t
  | _ => cases hs

theorem Steady.onData (recvCap : Nat) (t : Tcb) (s : TcpSegment) :
    t.Steady (t.onData recvCap s).1 := by
  have hcase := onData_case recvCap t s
  generalize t.onData recvCap s = r at hcase ⊢
  cases hcase <;> exact ⟨rfl, rfl, rfl, rfl, id⟩

theorem Steady.onFin (s : TcpSegment) (t : Tcb) : t.Steady (t.onFin s).1 := by
  have hcase := onFin_case t s
  generalize t.onFin s = r at hcase ⊢
  cases hcase with
  | taken =>
    refine ⟨rfl, rfl, rfl, ?_, fun hc => ?_⟩
    · show t.state.onPeerFin.handshake = _
      cases t.state <;> rfl
    · show t.state.onPeerFin = _
      rw [hc]
      rfl
  | ignored => exact .refl t

/-- An acknowledgement of something in flight: the counters start again. -/
structure Acked (t t' : Tcb) : Prop where
  una : t'.sndUna ≠ t.sndUna
  since : t'.egressSinceAck = 0
  attempts : t'.retxAttempts = 0
  handshake : t'.state.handshake = t.state.handshake

theorem Acked.steady {t'' : Tcb} (h : t.Acked t') (h' : t'.Steady t'') : t.Acked t'' where
  una := h'.una ▸ h.una
  since := h'.since.trans h.since
  attempts := h'.attempts.trans h.attempts
  handshake := h'.handshake.trans h.handshake

theorem onAck_counters {s : TcpSegment} (h : t.onAck s = .ok t') : t.Steady t' ∨ t.Acked t' := by
  unfold Tcb.onAck at h
  split at h
  · obtain ⟨u, hu, h⟩ := bind_eq_ok.mp h
    cases h
    unfold takeAck at hu
    dsimp only at hu
    split at hu
    · rename_i hacked
      obtain ⟨rest, -, hu⟩ := bind_eq_ok.mp hu
      cases hu
      refine Or.inr ⟨fun heq => ?_, rfl, rfl, ?_⟩
      · have hzero : s.ack - t.sndUna = 0 := by
          rw [show s.ack = t.sndUna from heq]
          exact UInt32.sub_self _
        rw [hzero] at hacked
        exact absurd hacked.1 (UInt32.lt_irrefl 0)
      · dsimp only
        split
        · cases t.state <;> rfl
        · rfl
    · cases hu
      exact Or.inl ⟨rfl, rfl, rfl, rfl, id⟩
  · cases h
    exact Or.inl (.refl t)

/-- What an inbound segment does to the counters. -/
inductive Heard (t t' : Tcb) : Prop
  | closed (h : t'.state = .closed)
  | steady (h : t.Steady t')
  | acked (h : t.Acked t')
  | completed (h : t.state.handshake = true) (h' : t'.state = .established)
      (since : t'.egressSinceAck = t.egressSinceAck) (attempts : t'.retxAttempts = t.retxAttempts)

theorem onSegment_counters {recvCap : Nat} {loc rem : SocketAddr} {s : TcpSegment}
    {segs : List TcpSegment} (h : t.onSegment recvCap loc rem s = .ok (t', segs)) :
    t.Heard t' := by
  unfold Tcb.onSegment at h
  split at h
  · cases h
    exact .closed rfl
  · split at h
    · rename_i hst
      split at h <;> cases h
      · exact .completed (by rw [hst]; rfl) rfl rfl rfl
      · exact .steady (.refl t)
    · rename_i hst
      split at h
      · split at h <;> cases h
        · exact .steady (.refl t)
        · exact .completed (by rw [hst]; rfl) rfl rfl rfl
      · cases h
        exact .steady (.refl t)
    · cases h
      exact .steady (.refl t)
    · obtain ⟨⟨u, sendAck⟩, hu, h⟩ := bind_eq_ok.mp h
      cases h
      obtain ⟨v, hv, hu⟩ := bind_eq_ok.mp hu
      cases hu
      have hrest := (Steady.onData recvCap v s).trans (.onFin s _)
      rcases onAck_counters hv with hsteady | hacked
      · exact .steady (hsteady.trans hrest)
      · exact .acked (hacked.steady hrest)

end Tcb

/-! ## 3. The counters and the ledger agree -/

/-- The two counters, in terms of the ledger.  The first round is short by what was left over. -/
structure Ledger.Tells (cfg : KernelConfig) (l : Ledger) (t : Tcb) : Prop where
  attempts : t.retxAttempts = l.leftover.2 + l.rounds.length
  since : t.egressSinceAck = l.passes + if l.rounds = [] then l.leftover.1 else 0
  leftover : l.leftover.1 < cfg.retxThreshold
  full : ∀ n ∈ l.rounds, cfg.retxThreshold ≤ n + l.leftover.1
  first : l.rounds ≠ [] → cfg.retxThreshold - l.leftover.1 ∈ l.rounds

/-- The counters of a connection that was not given up. -/
structure Ledger.Agrees (cfg : KernelConfig) (l : Ledger) (t : Tcb) : Prop where
  since : t.egressSinceAck < cfg.retxThreshold
  attempts : t.retxAttempts ≤ cfg.retxMax
  past : t.state.handshake = false → l.Tells cfg t

namespace Ledger

variable {cfg : KernelConfig} {l : Ledger} {t t' : Tcb} {x : Stage}

/-- A new ledger agrees. -/
theorem Agrees.openedAt (h1 : t.egressSinceAck < cfg.retxThreshold)
    (h2 : t.retxAttempts ≤ cfg.retxMax) : (openedAt t).Agrees cfg t :=
  ⟨h1, h2, fun _ => ⟨rfl, (Nat.zero_add _).symm, h1, nofun, fun hne => absurd rfl hne⟩⟩

theorem Agrees.steady (h : l.Agrees cfg t) (hs : t.Steady t') : l.Agrees cfg t' where
  since := hs.since ▸ h.since
  attempts := hs.attempts ▸ h.attempts
  past := fun hpast => by
    have htells := h.past (hs.handshake.symm.trans hpast)
    exact ⟨hs.attempts.trans htells.attempts, hs.since.trans htells.since, htells.leftover,
      htells.full, htells.first⟩

theorem not_progressed (hu : t'.sndUna = t.sndUna)
    (hh : t'.state.handshake = t.state.handshake) : progressed t t' = false := by
  have hne : t.state.handshake = true → t'.state ≠ .established := by
    intro h1 h2
    rw [h1, h2] at hh
    cases hh
  simpa [progressed, hu] using hne

theorem next_of_progressed (hp : progressed t t' = true) : l.next x t t' = .openedAt t' := by
  unfold next
  exact if_pos hp

/-- Outside of `check_retx` the ledger only changes with progress. -/
theorem next_of_steady (hx : x ≠ .checkRetx) (hs : t.Steady t') : l.next x t t' = l := by
  unfold next
  rw [not_progressed hs.una hs.handshake]
  cases x <;> first | rfl | exact absurd rfl hx

/-- **An inbound segment.** -/
theorem Agrees.heard (hth : 1 ≤ cfg.retxThreshold) (hx : x ≠ .checkRetx) (h : l.Agrees cfg t)
    (hh : t.Heard t') : t'.state = .closed ∨ (l.next x t t').Agrees cfg t' := by
  cases hh with
  | closed hc => exact Or.inl hc
  | steady hs =>
    refine Or.inr ?_
    rw [next_of_steady hx hs]
    exact h.steady hs
  | acked ha =>
    have hp : progressed t t' = true := by
      unfold progressed
      rw [bne_iff_ne.mpr ha.una]
      exact Bool.or_true _
    rw [next_of_progressed hp]
    exact Or.inr (.openedAt (by rw [ha.since]; exact hth) (by rw [ha.attempts]; exact Nat.zero_le _))
  | completed h1 h2 h3 h4 =>
    have hp : progressed t t' = true := by
      unfold progressed
      rw [h1, h2]
      rfl
    rw [next_of_progressed hp]
    exact Or.inr (.openedAt (h3 ▸ h.since) (h4 ▸ h.attempts))

theorem next_checkRetx (hu : t'.sndUna = t.sndUna)
    (hh : t'.state.handshake = t.state.handshake) (hw : t.awaitsAck = true) :
    l.next .checkRetx t t' =
      if t'.sndNxt != t.sndNxt then { l with rounds := (l.passes + 1) :: l.rounds, passes := 0 }
      else { l with passes := l.passes + 1 } := by
  unfold next
  rw [not_progressed hu hh]
  exact if_pos hw

/-- **A pass of `check_retx`.** -/
theorem Agrees.swept (h : l.Agrees cfg t) (hw : t.awaitsAck = true) :
    (t.swept cfg).state = .closed
      ∨ (l.next .checkRetx t (t.swept cfg)).Agrees cfg (t.swept cfg) := by
  have hsince := h.since
  have hattempts := h.attempts
  rw [Tcb.swept_eq]
  by_cases hwait : t.egressSinceAck + 1 < cfg.retxThreshold
  · -- the pass is counted
    refine Or.inr ?_
    rw [if_pos hwait, next_checkRetx (by rfl) (by rfl) hw, if_neg (by simp)]
    refine ⟨hwait, hattempts, fun hpast => ?_⟩
    have htells := h.past hpast
    refine ⟨htells.attempts, ?_, htells.leftover, htells.full, htells.first⟩
    show t.egressSinceAck + 1 = l.passes + 1 + _
    rw [htells.since]
    exact Nat.add_right_comm ..
  · rw [if_neg hwait]
    by_cases hmax : t.retxAttempts ≥ cfg.retxMax
    · rw [if_pos hmax]
      exact Or.inl rfl
    · refine Or.inr ?_
      rw [if_neg hmax]
      by_cases hhand : t.state.handshake = true
      · rw [if_pos hhand]
        refine ⟨?_, ?_, fun hpast => ?_⟩
        · show 0 < _
          omega
        · show t.retxAttempts + 1 ≤ _
          omega
        · cases hhand.symm.trans hpast
      · -- a rewind ends the round
        replace hhand := Bool.eq_false_iff.mpr hhand
        have hne : t.sndUna ≠ t.sndNxt := by
          unfold Tcb.awaitsAck at hw
          rw [hhand] at hw
          exact bne_iff_ne.mp (Bool.and_eq_true_iff.mp hw).2
        rw [if_neg (by simp [hhand]), next_checkRetx (by rfl) (by rfl) hw,
          if_pos (bne_iff_ne.mpr hne)]
        have htells := h.past hhand
        have hround : l.passes + 1 + (if l.rounds = [] then l.leftover.1 else 0)
            = cfg.retxThreshold := by
          have := htells.since
          omega
        refine ⟨?_, ?_, fun _ => ⟨?_, ?_, htells.leftover, ?_, fun _ => ?_⟩⟩
        · show 0 < _
          omega
        · show t.retxAttempts + 1 ≤ _
          omega
        · show t.retxAttempts + 1 = l.leftover.2 + (l.rounds.length + 1)
          rw [htells.attempts]
          exact Nat.add_assoc ..
        · rfl
        · refine List.forall_mem_cons.mpr ⟨?_, htells.full⟩
          show _ ≤ l.passes + 1 + l.leftover.1
          split at hround <;> omega
        · by_cases hnil : l.rounds = []
          · rw [if_pos hnil] at hround
            refine List.mem_cons.mpr (Or.inl ?_)
            show cfg.retxThreshold - l.leftover.1 = l.passes + 1
            omega
          · exact List.mem_cons_of_mem _ (htells.first hnil)

end Ledger

/-! ## 4. Along a run -/

namespace Kernel

variable {cfg : KernelConfig} {k k' : Kernel} {fd : Fd} {l : Ledger} {x : Stage}

theorem ledger_cons {xs : List Stage} (h : k.stage x = .ok k') :
    k.ledger fd l (x :: xs) = k'.ledger fd (entered fd k k' l x) xs := by
  rw [ledger, h]

/-- The socket's connection, if it is still up, agrees with the ledger. -/
structure Kept (cfg : KernelConfig) (fd : Fd) (l : Ledger) (k : Kernel) : Prop where
  sound : k.Sound
  config : k.cfg = cfg
  agrees : ∀ c, k.conn? fd = some c → c.tcb.state = .closed ∨ l.Agrees cfg c.tcb

/-- The acts of the calls are not those of the sweeps. -/
theorem steady_of_acts {c : Syscall} {x y : Conn} (h : Acts (callScope k k' c) cfg fd x y) :
    x.tcb.Steady y.tcb := by
  obtain ⟨loc, rem, a, segs, ha, hact, -, -⟩ := h
  refine Tcb.Steady.act (fun s heq => ?_) ?_ hact
  · subst heq
    cases c <;> first | exact ha | cases ha.2
  · cases c <;> first | exact ha.elim | (rw [ha.2]; rfl)

theorem steady_of_called {c : Syscall} {x y : Conn}
    (h : Relation.ReflTransGen (Acts (callScope k k' c) cfg fd) x y) : x.tcb.Steady y.tcb := by
  induction h with
  | refl => exact .refl _
  | tail _ h ih => exact ih.trans (steady_of_acts h)

theorem Agrees.newborn (hth : 1 ≤ cfg.retxThreshold) {t : Tcb} (h : t.Newborn) :
    l.Agrees cfg t := by
  obtain ⟨state, peer, isn, wnd, rcv, hs, rfl⟩ := h
  refine ⟨hth, Nat.zero_le _, fun hpast => ?_⟩
  cases hs.symm.trans hpast

/-- What a stage leaves of a connection that agreed with the ledger. -/
theorem agrees_stage (hth : 1 ≤ cfg.retxThreshold) (hk : k.Kept cfg fd l) (h : k.stage x = .ok k')
    {c' : Conn} (hc' : k'.conn? fd = some c') :
    c'.tcb.state = .closed ∨ (entered fd k k' l x).Agrees cfg c'.tcb := by
  -- what a stage other than the check does to a connection that was there
  have hheard : ∀ {c : Conn}, k.conn? fd = some c → x ≠ .checkRetx → c.tcb.Heard c'.tcb →
      (c.tcb.state = .closed → c'.tcb.state = .closed) →
      c'.tcb.state = .closed ∨ (entered fd k k' l x).Agrees cfg c'.tcb := by
    intro c hc hx hh hclosed
    rcases hk.agrees c hc with hcl | hag
    · exact Or.inl (hclosed hcl)
    · unfold entered
      rw [hc, hc']
      exact hag.heard hth hx hh
  have hsteady : ∀ {c : Conn}, k.conn? fd = some c → x ≠ .checkRetx → c.tcb.Steady c'.tcb →
      c'.tcb.state = .closed ∨ (entered fd k k' l x).Agrees cfg c'.tcb :=
    fun hc hx hs => hheard hc hx (.steady hs) hs.closed
  have hnew : c'.tcb.Newborn →
      c'.tcb.state = .closed ∨ (entered fd k k' l x).Agrees cfg c'.tcb :=
    fun h => Or.inr (Agrees.newborn hth h)
  cases x with
  | call c =>
    cases hr : k.syscall c with
    | error e =>
      rw [stage, hr] at h
      cases h
    | ok r =>
      rw [stage, hr] at h
      cases h
      cases syscall_fate hk.sound (show k.syscall c = .ok (r.1, r.2) from hr) fd with
      | acted h1 h2 h3 =>
        cases h2.symm.trans hc'
        exact hsteady h1 (fun h => by cases h) (steady_of_called h3)
      | absent h1 h2 => cases h2.symm.trans hc'
      | opened h1 h2 h3 h4 =>
        cases h2.symm.trans hc'
        exact hnew h3
      | gone h1 h2 h3 h4 h5 => cases (conn?_of_lookup_none h4).symm.trans hc'
  | deliver pkt =>
    rcases deliver_conn hk.sound h fd with
      ⟨hsame, -⟩ | ⟨s, c, t, segs, -, hc, ha, hafter⟩ | ⟨-, c, hafter, hborn⟩
    · rw [hsame] at hc'
      exact hsteady hc' (fun h => by cases h) (.refl _)
    · cases hafter.symm.trans hc'
      refine hheard hc (fun h => by cases h) (Tcb.onSegment_counters ha) fun hcl => ?_
      unfold Tcb.onSegment at ha
      split at ha
      · cases ha
        rfl
      · rw [hcl] at ha
        cases ha
        exact hcl
    · cases hafter.symm.trans hc'
      exact hnew hborn
  | checkRetx =>
    rw [checkRetx_conn h] at hc'
    obtain ⟨c, hc, hafter⟩ := Option.map_eq_some_iff.mp hc'
    have hboth : k'.conn? fd = some c' := by
      rw [checkRetx_conn h]
      exact hc'
    have hentered : entered fd k k' l .checkRetx = l.next .checkRetx c.tcb c'.tcb := by
      unfold entered
      rw [hc, hboth]
    rw [hentered]
    by_cases hw : c.tcb.awaitsAck = true
    · rw [if_pos hw, hk.config] at hafter
      rw [← hafter]
      rcases hk.agrees c hc with hcl | hag
      · rw [Tcb.awaitsAck, hcl] at hw
        cases hw
      · exact hag.swept hw
    · rw [if_neg hw] at hafter
      rw [← hafter]
      rcases hk.agrees c hc with hcl | hag
      · exact Or.inl hcl
      · refine Or.inr ?_
        unfold Ledger.next
        rw [Ledger.not_progressed rfl rfl]
        show Ledger.Agrees cfg (if c.tcb.awaitsAck = true then _ else l) _
        rw [if_neg hw]
        exact hag
  | segmentAll =>
    obtain ⟨next, hnext⟩ := segmentAll_conn h fd
    rw [hnext] at hc'
    obtain ⟨c, hc, hafter⟩ := Option.map_eq_some_iff.mp hc'
    refine hsteady hc (fun h => by cases h) ?_
    rw [← hafter]
    exact ⟨rfl, rfl, rfl, rfl, id⟩
  | drain =>
    cases h
    exact hsteady hc' (fun h => by cases h) (.refl _)
  | reapClosed =>
    cases h
    rcases reapClosed_conn k fd with hsame | ⟨hnone, -⟩
    · rw [hsame] at hc'
      exact hsteady hc' (fun h => by cases h) (.refl _)
    · cases hnone.symm.trans hc'

theorem Kept.stage (hth : 1 ≤ cfg.retxThreshold) (hk : k.Kept cfg fd l) (h : k.stage x = .ok k') :
    k'.Kept cfg fd (entered fd k k' l x) where
  sound := (hk.sound.stage h).1
  config := (hk.sound.stage h).2.trans hk.config
  agrees := fun _ hc' => agrees_stage hth hk h hc'

theorem Kept.stages (hth : 1 ≤ cfg.retxThreshold) : ∀ {xs : List Stage} {k : Kernel} {l : Ledger},
    k.Kept cfg fd l → k.stages xs = .ok k' → k'.Kept cfg fd (k.ledger fd l xs) := by
  intro xs
  induction xs with
  | nil =>
    intro k l hk h
    cases h
    exact hk
  | cons x xs ih =>
    intro k l hk h
    rw [stages_cons] at h
    obtain ⟨k1, h1, h⟩ := bind_eq_ok.mp h
    rw [ledger_cons h1]
    exact ih (hk.stage hth h1) h

theorem Kept.host (cfg : KernelConfig) (addrs : List IpAddr) (fd : Fd) (l : Ledger) :
    (host cfg addrs).Kept cfg fd l := by
  have hsound := Sound.host cfg addrs
  obtain ⟨as, has⟩ := host_eq cfg addrs
  rw [has] at hsound ⊢
  refine ⟨hsound, rfl, fun c hc => ?_⟩
  cases hc

/-- **The budget.**  Whenever, in whatever run, `check_retx` gives up a connection past its
handshake, the budget was spent in full since the handshake completed or `snd_una` last moved, if
and only if both counters were at zero then. -/
theorem retransmit_budget_iff (cfg : KernelConfig) (hth : 1 ≤ cfg.retxThreshold)
    (addrs : List IpAddr) (xs : List Stage) (hrun : (host cfg addrs).stages xs = .ok k)
    (h : k.stage .checkRetx = .ok k') {c c' : Conn} (hc : k.conn? fd = some c)
    (hc' : k'.conn? fd = some c') (hpast : c.tcb.state.handshake = false)
    (hup : c.tcb.timedOut = false) (hdown : c'.tcb.timedOut = true) :
    ((host cfg addrs).ledger fd ⟨(0, 0), [], 0⟩ xs).Spent cfg
      ↔ ((host cfg addrs).ledger fd ⟨(0, 0), [], 0⟩ xs).leftover = (0, 0) := by
  have hk := (Kept.host cfg addrs fd ⟨(0, 0), [], 0⟩).stages hth hrun
  generalize (host cfg addrs).ledger fd ⟨(0, 0), [], 0⟩ xs = l at hk ⊢
  -- it was given up, so it was counted and both counters are at their ends
  rw [checkRetx_conn h, hc, Option.map_some] at hc'
  have hafter := Option.some.inj hc'
  have hw : c.tcb.awaitsAck = true := by
    by_contra hw
    rw [if_neg hw] at hafter
    rw [← hafter, hup] at hdown
    cases hdown
  rw [if_pos hw, hk.config] at hafter
  rw [← hafter] at hdown
  have hag : l.Agrees cfg c.tcb := by
    refine (hk.agrees c hc).resolve_left fun hcl => ?_
    rw [Tcb.awaitsAck, hcl] at hw
    cases hw
  have htells := hag.past hpast
  have hends : cfg.retxThreshold = c.tcb.egressSinceAck + 1
      ∧ cfg.retxMax = c.tcb.retxAttempts := by
    have h1 := hag.since
    have h2 := hag.attempts
    change (c.tcb.swept cfg).timedOut = true at hdown
    rw [Tcb.swept_eq] at hdown
    split at hdown
    · cases hup.symm.trans hdown
    · split at hdown
      · omega
      · split at hdown <;> cases hup.symm.trans hdown
  have hattempts := htells.attempts
  have hsince := htells.since
  have hleft := htells.leftover
  constructor
  · intro hspent
    have h1 := hspent.rewinds
    have h2 : l.leftover.1 = 0 := by
      by_cases hnil : l.rounds = []
      · have := hspent.last
        rw [if_pos hnil] at hsince
        omega
      · have := hspent.rounds _ (htells.first hnil)
        omega
    exact Prod.ext h2 (by omega)
  · intro hzero
    rw [hzero] at hattempts hsince
    have hfull := htells.full
    rw [hzero] at hfull
    refine ⟨?_, hfull, ?_⟩
    · have : c.tcb.retxAttempts = 0 + l.rounds.length := hattempts
      omega
    · rw [ite_self] at hsince
      omega

/-- A turn of `egress` that sends but has nothing to deliver to its own host. -/
def pass : List Stage := [.checkRetx, .segmentAll, .drain, .segmentAll, .reapClosed]

/-- A segment from the server, for the first connection of the client. -/
def fromServer (ack : UInt32) (flags : TcpFlags) : Stage :=
  .deliver ⟨.v4 0x0A000002, .v4 0x0A000001, 64,
    .tcp ⟨80, 49152, 500, ack, flags, 65535, []⟩⟩

/-- The client connects, the SYN-ACK comes after one pass, and the client sends a byte. -/
def byteSent : List Stage :=
  [.call (.openSocket .inet .stream), .call (.connect 1 ⟨.v4 0x0A000002, 80⟩)] ++ pass
    ++ [fromServer 0x1000001 { syn := true, ack := true }, .call (.send 1 [7])] ++ pass

/-- The byte is acknowledged, and another one sent. -/
def byteAcked : List Stage :=
  byteSent ++ [fromServer 0x1000002 { ack := true }, .call (.send 1 [8])] ++ pass

/-- Nothing more is heard. -/
def silence (n : Nat) : List Stage := (List.replicate n pass).flatten

/-- The client, before and after a check: is it past the handshake, and was it given up? -/
def nextCheck (xs : List Stage) : Option (Bool × Bool × Bool) := do
  let k ← ((host .default [.v4 0x0A000001]).stages xs).toOption
  let k' ← (k.stage .checkRetx).toOption
  let c ← k.conn? 1
  let c' ← k'.conn? 1
  some (c.tcb.state.handshake, c.tcb.timedOut, c'.tcb.timedOut)

theorem nextCheck_eq_some {xs : List Stage} {b1 b2 b3 : Bool} (h : nextCheck xs = some (b1, b2, b3)) :
    ∃ k k' c c', (host .default [.v4 0x0A000001]).stages xs = .ok k ∧ k.stage .checkRetx = .ok k'
      ∧ k.conn? 1 = some c ∧ k'.conn? 1 = some c'
      ∧ c.tcb.state.handshake = b1 ∧ c.tcb.timedOut = b2 ∧ c'.tcb.timedOut = b3 := by
  obtain ⟨k, hk, h⟩ := Option.bind_eq_some_iff.mp h
  obtain ⟨k', hk', h⟩ := Option.bind_eq_some_iff.mp h
  obtain ⟨c, hc, h⟩ := Option.bind_eq_some_iff.mp h
  obtain ⟨c', hc', h⟩ := Option.bind_eq_some_iff.mp h
  cases h
  exact ⟨k, k', c, c', toOption_eq_some.mp hk, toOption_eq_some.mp hk', hc, hc', rfl, rfl, rfl⟩

/-- After an acknowledgement all five rewinds come after three passes each. -/
theorem retransmit_budget_iff_acked : ∃ k k' c c',
    (host .default [.v4 0x0A000001]).stages (byteAcked ++ silence 17) = .ok k
      ∧ k.stage .checkRetx = .ok k' ∧ k.conn? 1 = some c ∧ k'.conn? 1 = some c'
      ∧ c.tcb.state.handshake = false ∧ c.tcb.timedOut = false ∧ c'.tcb.timedOut = true
      ∧ ((host .default [.v4 0x0A000001]).ledger 1 ⟨(0, 0), [], 0⟩ (byteAcked ++ silence 17)).Spent
        .default := by
  have hcheck : nextCheck (byteAcked ++ silence 17) = some (false, false, true) := by
    decide +kernel
  obtain ⟨k, k', c, c', hk, hk', hc, hc', h1, h2, h3⟩ := nextCheck_eq_some hcheck
  refine ⟨k, k', c, c', hk, hk', hc, hc', h1, h2, h3,
    (retransmit_budget_iff _ (by decide) _ _ hk hk' hc hc' h1 h2 h3).mpr ?_⟩
  decide +kernel

/-- The pass that waited for the SYN-ACK is missing from the first round. -/
theorem handshake_uses_budget : ∃ k k' c c',
    (host .default [.v4 0x0A000001]).stages (byteSent ++ silence 16) = .ok k
      ∧ k.stage .checkRetx = .ok k' ∧ k.conn? 1 = some c ∧ k'.conn? 1 = some c'
      ∧ c.tcb.state.handshake = false ∧ c.tcb.timedOut = false ∧ c'.tcb.timedOut = true
      ∧ ¬ ((host .default [.v4 0x0A000001]).ledger 1 ⟨(0, 0), [], 0⟩
        (byteSent ++ silence 16)).Spent .default := by
  have hcheck : nextCheck (byteSent ++ silence 16) = some (false, false, true) := by
    decide +kernel
  have hledger : (host .default [.v4 0x0A000001]).ledger 1 ⟨(0, 0), [], 0⟩ (byteSent ++ silence 16)
      = ⟨(1, 0), [3, 3, 3, 3, 2], 2⟩ := by
    decide +kernel
  obtain ⟨k, k', c, c', hk, hk', hc, hc', h1, h2, h3⟩ := nextCheck_eq_some hcheck
  refine ⟨k, k', c, c', hk, hk', hc, hc', h1, h2, h3, fun hspent => ?_⟩
  rw [hledger] at hspent
  exact absurd (hspent.rounds 2 (by decide)) (by decide)

end Kernel

end Turmoil.Net
