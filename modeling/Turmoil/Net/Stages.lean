/-
# The stages of a run, one by one

What a connection has been through is a question about the order of events, and `egress` is too
coarse for it: one call checks for retransmissions, cuts segments, and delivers what is local, over
and over.  Here a run is cut into its stages.  Every call, packet and turn of `egress` is a
sequence of stages (`run_stages`), with one `check_retx` for each turn, so what is shown of every
sequence of stages holds of every run.

For each stage one lemma says what it can make of a connection.  `check_retx` counts it once
(`checkRetx_conn`), a packet hands it at most the one segment (`deliver_conn`), `segment_all` moves
its `snd_nxt` (`segmentAll_conn`), and a call does what the application asked for, opens it, or
removes it (`syscall_fate`).  Everything that depends on the history of a connection is derived
from these.
-/
import Turmoil.Net.SeqSpace

namespace Turmoil.Net

/-! ## 1. Stages -/

inductive Stage where
  | call (c : Syscall)
  | deliver (pkt : Packet)
  | checkRetx
  | segmentAll
  /-- `egress` takes the queue. -/
  | drain
  | reapClosed

/-- The stages `egress` repeats. -/
def Stage.repeats : Stage → Bool
  | deliver _ | segmentAll | drain => true
  | _ => false

/-- A run, stage by stage. -/
inductive Spells : List KernelOp → List Stage → Prop
  | nil : Spells [] []
  | call {ops : List KernelOp} {xs : List Stage} (c : Syscall) (h : Spells ops xs) :
      Spells (.call c :: ops) (.call c :: xs)
  | deliver {ops : List KernelOp} {xs : List Stage} (pkt : Packet) (h : Spells ops xs) :
      Spells (.deliver pkt :: ops) (.deliver pkt :: xs)
  | egress {ops : List KernelOp} {xs : List Stage} (fuel : Nat) {loop : List Stage}
      (hloop : ∀ x ∈ loop, x.repeats = true) (h : Spells ops xs) :
      Spells (.egress fuel :: ops) (.checkRetx :: loop ++ .reapClosed :: xs)

namespace Kernel

variable {k k' : Kernel} {fd : Fd}

def stage (k : Kernel) : Stage → Except Panic Kernel
  | .call c => (k.syscall c).map Prod.fst
  | .deliver pkt => k.deliver pkt
  | .checkRetx => k.checkRetx
  | .segmentAll => k.segmentAll
  | .drain => .ok { k with outbound := [] }
  | .reapClosed => .ok k.reapClosed

def stages (k : Kernel) (xs : List Stage) : Except Panic Kernel := xs.foldlM stage k

theorem stages_cons {x : Stage} {xs : List Stage} :
    k.stages (x :: xs) = k.stage x >>= fun k' => k'.stages xs :=
  List.foldlM_cons ..

theorem stages_append {xs ys : List Stage} :
    k.stages (xs ++ ys) = k.stages xs >>= fun k' => k'.stages ys :=
  List.foldlM_append ..

theorem route_stages : ∀ {pkts : List Packet} {k k' : Kernel} {out : List Packet},
    k.route pkts = .ok (k', out) →
    ∃ xs, (∀ x ∈ xs, x.repeats = true) ∧ k.stages xs = .ok k' := by
  intro pkts
  induction pkts with
  | nil =>
    intro k k' out h
    cases h
    exact ⟨[], nofun, rfl⟩
  | cons pkt pkts ih =>
    intro k k' out h
    unfold route at h
    split at h
    · obtain ⟨k1, h1, h⟩ := bind_eq_ok.mp h
      obtain ⟨xs, hxs, hrun⟩ := ih h
      refine ⟨.deliver pkt :: xs, List.forall_mem_cons.mpr ⟨rfl, hxs⟩, ?_⟩
      rw [stages_cons, stage, h1]
      exact hrun
    · obtain ⟨⟨k1, out1⟩, h1, h⟩ := bind_eq_ok.mp h
      cases h
      exact ih h1

theorem egressLoop_stages : ∀ {fuel : Nat} {k k' : Kernel} {out : List Packet},
    egressLoop fuel k = .ok (k', out) →
    ∃ xs, (∀ x ∈ xs, x.repeats = true) ∧ k.stages xs = .ok k' := by
  intro fuel
  induction fuel with
  | zero =>
    intro k k' out h
    cases h
  | succ fuel ih =>
    intro k k' out h
    obtain ⟨k1, h1, h⟩ := bind_eq_ok.mp h
    split at h
    · cases h
      refine ⟨[.segmentAll], List.forall_mem_singleton.mpr rfl, ?_⟩
      rw [stages_cons, stage, h1]
      rfl
    · obtain ⟨⟨k2, out2⟩, h2, h⟩ := bind_eq_ok.mp h
      obtain ⟨⟨k3, out3⟩, h3, h⟩ := bind_eq_ok.mp h
      cases h
      obtain ⟨xs, hxs, hrun⟩ := route_stages h2
      obtain ⟨ys, hys, hrun'⟩ := ih h3
      refine ⟨.segmentAll :: .drain :: (xs ++ ys), List.forall_mem_cons.mpr ⟨rfl,
        List.forall_mem_cons.mpr ⟨rfl, List.forall_mem_append.mpr ⟨hxs, hys⟩⟩⟩, ?_⟩
      rw [stages_cons, stage, h1]
      show ({ k1 with outbound := [] } : Kernel).stages (xs ++ ys) = _
      rw [stages_append, hrun]
      exact hrun'

/-- **Every run is a sequence of stages.** -/
theorem run_stages : ∀ {ops : List KernelOp} {k k' : Kernel}, k.run ops = .ok k' →
    ∃ xs, Spells ops xs ∧ k.stages xs = .ok k' := by
  intro ops
  induction ops with
  | nil =>
    intro k k' h
    cases h
    exact ⟨[], .nil, rfl⟩
  | cons op ops ih =>
    intro k k' h
    rw [run, List.foldlM_cons] at h
    obtain ⟨k1, h1, h⟩ := bind_eq_ok.mp h
    obtain ⟨xs, hxs, hrun⟩ := ih h
    cases op with
    | call c =>
      refine ⟨.call c :: xs, .call c hxs, ?_⟩
      cases hc : k.syscall c with
      | error e =>
        rw [step, hc] at h1
        cases h1
      | ok r =>
        rw [step, hc] at h1
        cases h1
        rw [stages_cons, stage, hc]
        exact hrun
    | deliver pkt =>
      refine ⟨.deliver pkt :: xs, .deliver pkt hxs, ?_⟩
      cases hc : k.deliver pkt with
      | error e =>
        rw [step, hc] at h1
        cases h1
      | ok k2 =>
        rw [step, hc] at h1
        cases h1
        rw [stages_cons, stage, hc]
        exact hrun
    | egress fuel =>
      cases hc : k.egress fuel with
      | error e =>
        rw [step, hc] at h1
        cases h1
      | ok r =>
        rw [step, hc] at h1
        cases h1
        obtain ⟨k2, h2, hc⟩ := bind_eq_ok.mp hc
        obtain ⟨⟨k3, out⟩, h3, hc⟩ := bind_eq_ok.mp hc
        cases hc
        obtain ⟨loop, hloop, hrun'⟩ := egressLoop_stages h3
        refine ⟨.checkRetx :: loop ++ .reapClosed :: xs, .egress fuel hloop hxs, ?_⟩
        rw [List.cons_append, stages_cons, stage, h2]
        show k2.stages (loop ++ _) = _
        rw [stages_append, hrun']
        exact hrun

end Kernel

/-! ## 2. The retransmission check, for one connection -/

/-- A control block that was just set up. -/
def Tcb.Newborn (t : Tcb) : Prop :=
  ∃ state peer isn wnd rcv, state.handshake = true ∧ t = Tcb.fresh state peer isn wnd rcv

/-- What `check_retx` leaves of a control block that awaits an acknowledgement. -/
def Tcb.swept (cfg : KernelConfig) (t : Tcb) : Tcb :=
  let (t', action) := t.checkRetx cfg.retxThreshold cfg.retxMax
  if action = .abort then t'.abort .timedOut else t'

theorem Tcb.swept_eq (cfg : KernelConfig) (t : Tcb) : t.swept cfg =
    if t.egressSinceAck + 1 < cfg.retxThreshold then
      { t with egressSinceAck := t.egressSinceAck + 1 }
    else if t.retxAttempts ≥ cfg.retxMax then
      { t with egressSinceAck := t.egressSinceAck + 1 }.abort .timedOut
    else if t.state.handshake then
      { t with retxAttempts := t.retxAttempts + 1, egressSinceAck := 0 }
    else { t with retxAttempts := t.retxAttempts + 1, egressSinceAck := 0, sndNxt := t.sndUna } := by
  unfold Tcb.swept Tcb.checkRetx
  dsimp only
  by_cases h1 : t.egressSinceAck + 1 < cfg.retxThreshold
  · rw [if_pos h1, if_pos h1]
    rfl
  · rw [if_neg h1, if_neg h1]
    by_cases h2 : t.retxAttempts ≥ cfg.retxMax
    · rw [if_pos h2, if_pos h2]
      rfl
    · rw [if_neg h2, if_neg h2]
      cases h3 : t.state.handshake <;> rfl

namespace Kernel

variable {k k' : Kernel} {fd : Fd} {c : Conn}

theorem conn?_setTcb (hc : k.conn? fd = some c) (t : Tcb) (g : Fd) :
    (k.setTcb fd t).conn? g = if g = fd then some { c with tcb := t } else k.conn? g := by
  obtain ⟨st, hst, -, hb, hf⟩ := conn?_eq_some.mp hc
  rw [setTcb_eq_putTcb hst, conn?_putTcb hc, hf]

theorem countAll_conn : ∀ {fds : List Fd} {k k' : Kernel} {resend abort : List Fd}, fds.Nodup →
    countAll k fds = .ok (k', resend, abort) → k'.cfg = k.cfg ∧ ∀ fd,
      (fd ∉ fds → k'.conn? fd = k.conn? fd ∧ fd ∉ abort) ∧
      (fd ∈ fds → ∃ c, k.conn? fd = some c
        ∧ k'.conn? fd
          = some { c with tcb := (c.tcb.checkRetx k.cfg.retxThreshold k.cfg.retxMax).1 }
        ∧ (fd ∈ abort ↔ (c.tcb.checkRetx k.cfg.retxThreshold k.cfg.retxMax).2 = .abort)) := by
  intro fds
  induction fds with
  | nil =>
    intro k k' resend abort _ h
    cases h
    exact ⟨rfl, fun fd => ⟨fun _ => ⟨rfl, List.not_mem_nil⟩, nofun⟩⟩
  | cons g fds ih =>
    intro k k' resend abort hnodup h
    obtain ⟨hg, hnodup⟩ := List.nodup_cons.mp hnodup
    obtain ⟨⟨k1, action⟩, h1, h⟩ := bind_eq_ok.mp h
    obtain ⟨⟨k2, resend2, abort2⟩, h2, h⟩ := bind_eq_ok.mp h
    obtain ⟨t, ht, h1⟩ := bind_eq_ok.mp h1
    obtain ⟨st, hst, ht⟩ := tcb?_eq_some.mp (expect_eq_ok.mp ht)
    obtain ⟨hk1, hact⟩ : k.setTcb g (t.checkRetx k.cfg.retxThreshold k.cfg.retxMax).1 = k1
        ∧ (t.checkRetx k.cfg.retxThreshold k.cfg.retxMax).2 = action :=
      Prod.mk.inj (Except.ok.inj h1)
    obtain ⟨hk2, hlists⟩ := Prod.mk.inj (Except.ok.inj h)
    obtain ⟨-, habort⟩ := Prod.mk.inj hlists
    have hc := conn?_of_lookup hst ht
    obtain ⟨hcfg, hrest⟩ := ih hnodup h2
    rw [← hk1, hk2] at hrest
    rw [← hk1, hk2] at hcfg
    have hmem : ∀ fd, fd ∈ abort ↔ (fd = g ∧ action = .abort) ∨ fd ∈ abort2 := by
      intro fd
      rw [← habort]
      split
      · rename_i ha
        simp [ha]
      · rename_i ha
        simp [ha]
    refine ⟨hcfg, fun fd => ⟨fun hfd => ?_, fun hfd => ?_⟩⟩
    · obtain ⟨hne, hfd⟩ := not_or.mp (mt List.mem_cons.mpr hfd)
      obtain ⟨hsame, hnot⟩ := (hrest fd).1 hfd
      rw [hsame, conn?_setTcb hc, if_neg hne, hmem]
      exact ⟨rfl, fun hor => hor.elim (fun hfd => hne hfd.1) hnot⟩
    · rcases List.mem_cons.mp hfd with rfl | hfd
      · obtain ⟨hsame, hnot⟩ := (hrest fd).1 hg
        rw [hsame, conn?_setTcb hc, if_pos rfl, hmem]
        refine ⟨_, hc, rfl, ⟨fun hor => ?_, fun ha => Or.inl ⟨rfl, hact.symm.trans ha⟩⟩⟩
        rcases hor with ⟨-, ha⟩ | hin
        · exact hact.trans ha
        · exact absurd hin hnot
      · have hne : fd ≠ g := fun heq => hg (heq ▸ hfd)
        obtain ⟨c, hc', hafter, hiff⟩ := (hrest fd).2 hfd
        rw [conn?_setTcb hc, if_neg hne] at hc'
        refine ⟨c, hc', hafter, (hmem fd).trans (Iff.trans ?_ hiff)⟩
        exact ⟨fun hor => hor.elim (fun hfd => absurd hfd.1 hne) id, Or.inr⟩

theorem emitHandshake_conn (h : k.emitHandshake fd = .ok k') (g : Fd) :
    k'.conn? g = k.conn? g := by
  obtain ⟨st, -, h⟩ := bind_eq_ok.mp h
  obtain ⟨t, -, h⟩ := bind_eq_ok.mp h
  obtain ⟨loc, -, h⟩ := bind_eq_ok.mp h
  obtain ⟨seg, -, h⟩ := bind_eq_ok.mp h
  cases h
  rfl

theorem resendAll_conn : ∀ {fds : List Fd} {k k' : Kernel}, fds.foldlM emitHandshake k = .ok k' →
    ∀ g, k'.conn? g = k.conn? g := by
  intro fds
  induction fds with
  | nil =>
    intro k k' h g
    cases h
    rfl
  | cons fd fds ih =>
    intro k k' h g
    rw [List.foldlM_cons] at h
    obtain ⟨k1, h1, h⟩ := bind_eq_ok.mp h
    rw [ih h, emitHandshake_conn h1]

theorem abort_abort (t : Tcb) (reason : AbortReason) :
    (t.abort reason).abort reason = t.abort reason := by
  cases reason <;> rfl

theorem abortAll_conn : ∀ {fds : List Fd} {k k' : Kernel},
    fds.foldlM (fun k fd => k.abortWith fd .timedOut) k = .ok k' → ∀ fd, k'.conn? fd
      = (k.conn? fd).map fun c =>
        if fd ∈ fds then { c with tcb := c.tcb.abort .timedOut } else c := by
  intro fds
  induction fds with
  | nil =>
    intro k k' h fd
    cases h
    simp
  | cons g fds ih =>
    intro k k' h fd
    rw [List.foldlM_cons] at h
    obtain ⟨k1, h1, h⟩ := bind_eq_ok.mp h
    rw [ih h]
    rcases abortWith_cases h1 with ⟨hnone, hquiet⟩ | ⟨st, t, hst, ht, rfl⟩
    · rw [hquiet.conn]
      cases hc : k.conn? fd with
      | none => rfl
      | some c =>
        have hne : fd ≠ g := by
          rintro rfl
          cases hc.symm.trans hnone
        simp [hne]
    · have hc := conn?_of_lookup hst ht
      rw [conn?_setTcb hc]
      by_cases heq : fd = g
      · rw [if_pos heq, heq, hc]
        simp only [Option.map_some, List.mem_cons, true_or, if_true, abort_abort, ite_self]
      · simp [heq]

/-- **What `check_retx` does to a connection.** -/
theorem checkRetx_conn (h : k.checkRetx = .ok k') (fd : Fd) :
    k'.conn? fd = (k.conn? fd).map fun c =>
      if c.tcb.awaitsAck then { c with tcb := c.tcb.swept k.cfg } else c := by
  obtain ⟨⟨k1, resend, abort⟩, h1, h⟩ := bind_eq_ok.mp h
  obtain ⟨k2, h2, h⟩ := bind_eq_ok.mp h
  obtain ⟨-, hcount⟩ := countAll_conn (k.nodup_candidates Tcb.awaitsAck) h1
  rw [abortAll_conn h, resendAll_conn h2]
  by_cases hmem : fd ∈ k.candidates Tcb.awaitsAck
  · obtain ⟨st, t, hst, ht, hwaits⟩ := mem_candidates.mp hmem
    obtain ⟨c, hc, hafter, habort⟩ := (hcount fd).2 hmem
    cases (conn?_of_lookup hst ht).symm.trans hc
    rw [hafter, hc, Option.map_some, Option.map_some, if_pos hwaits]
    unfold Tcb.swept
    dsimp only
    by_cases ha : fd ∈ abort
    · rw [if_pos ha, if_pos (habort.mp ha)]
    · rw [if_neg ha, if_neg fun hact => ha (habort.mpr hact)]
  · obtain ⟨hsame, hnot⟩ := (hcount fd).1 hmem
    rw [hsame]
    cases hc : k.conn? fd with
    | none => rfl
    | some c =>
      obtain ⟨st, hst, ht, -⟩ := conn?_eq_some.mp hc
      have hwaits : ¬ c.tcb.awaitsAck = true :=
        fun hw => hmem (mem_candidates.mpr ⟨st, c.tcb, hst, ht, hw⟩)
      rw [Option.map_some, Option.map_some, if_neg hnot, if_neg hwaits]

/-! ## 3. The other stages, for one connection -/

theorem segmentAll_conn (h : k.segmentAll = .ok k') (fd : Fd) : ∃ next : Conn → UInt32,
    k'.conn? fd = (k.conn? fd).map fun c => { c with tcb := { c.tcb with sndNxt := next c } } := by
  have hsame : ∀ o : Option Conn,
      o = o.map fun c => { c with tcb := { c.tcb with sndNxt := c.tcb.sndNxt } } := by
    intro o
    cases o <;> rfl
  suffices hfold : ∀ {fds : List Fd} {k k' : Kernel}, fds.foldlM segmentOne k = .ok k' →
      ∃ next : Conn → UInt32, k'.conn? fd
        = (k.conn? fd).map fun c => { c with tcb := { c.tcb with sndNxt := next c } } from hfold h
  intro fds
  induction fds with
  | nil =>
    intro k k' h
    cases h
    exact ⟨fun c => c.tcb.sndNxt, hsame _⟩
  | cons g fds ih =>
    intro k k' h
    rw [List.foldlM_cons] at h
    obtain ⟨k1, h1, h⟩ := bind_eq_ok.mp h
    obtain ⟨next, hnext⟩ := ih h
    obtain ⟨st, hst, h1⟩ := bind_eq_ok.mp h1
    obtain ⟨loc, -, h1⟩ := bind_eq_ok.mp h1
    obtain ⟨t, ht, h1⟩ := bind_eq_ok.mp h1
    obtain ⟨⟨t', segs⟩, hloop, h1⟩ := bind_eq_ok.mp h1
    have hc := conn?_of_lookup (expect_eq_ok.mp hst) (expect_eq_ok.mp ht)
    obtain ⟨x, hx⟩ := Tcb.segmentLoop_inRange.2 _ _ hloop
    cases h1
    rw [conn?_emitAll, conn?_setTcb hc] at hnext
    by_cases heq : fd = g
    · rw [if_pos heq, hx] at hnext
      rw [hnext, heq, hc]
      exact ⟨fun c => next { c with tcb := { c.tcb with sndNxt := x } }, rfl⟩
    · rw [if_neg heq] at hnext
      exact ⟨next, hnext⟩

/-- The packet holds this segment, and the index gives it to this socket. -/
def Reaches (k : Kernel) (pkt : Packet) (s : TcpSegment) (fd : Fd) : Prop :=
  pkt.payload = .tcp s
    ∧ k.sockets.findConnection ⟨pkt.dst, s.dstPort⟩ ⟨pkt.src, s.srcPort⟩ = some fd

/-- **What a packet does to a connection.** -/
theorem deliver_conn (hs : k.Sound) {pkt : Packet} (h : k.deliver pkt = .ok k') (fd : Fd) :
    (k'.conn? fd = k.conn? fd ∧ ∀ s, k.Reaches pkt s fd → k.conn? fd = none)
      ∨ (∃ s c t segs, k.Reaches pkt s fd ∧ k.conn? fd = some c
        ∧ c.tcb.onSegment k.cfg.recvBufCap ⟨pkt.dst, s.dstPort⟩ ⟨pkt.src, s.srcPort⟩ s
          = .ok (t, segs)
        ∧ k'.conn? fd = some { c with tcb := t })
      ∨ (k.conn? fd = none ∧ ∃ c, k'.conn? fd = some c ∧ c.tcb.Newborn) := by
  unfold deliver at h
  cases hp : pkt.payload with
  | udp d =>
    simp only [hp] at h
    refine Or.inl ⟨(udpDeliver_quiet h).conn fd, fun s hr => ?_⟩
    cases hp.symm.trans hr.1
  | tcp s =>
    simp only [hp] at h
    unfold tcpDeliver at h
    have hreach : ∀ {g}, k.sockets.findConnection ⟨pkt.dst, s.dstPort⟩ ⟨pkt.src, s.srcPort⟩ = g →
        some fd ≠ g → ∀ s', k.Reaches pkt s' fd → k.conn? fd = none := by
      intro g hg hne s' hr
      cases hp.symm.trans hr.1
      exact absurd (hr.2.symm.trans hg) hne
    cases hf : k.sockets.findConnection ⟨pkt.dst, s.dstPort⟩ ⟨pkt.src, s.srcPort⟩ with
    | some g =>
      simp only [hf] at h
      by_cases heq : fd = g
      · subst heq
        rcases handleOnConnection_cases h with
          ⟨hnone, hquiet⟩ | ⟨st, t, t', segs, hst, ht, ha, hquiet⟩
        · exact Or.inl ⟨hquiet.conn fd, fun _ _ => hnone⟩
        · have hc := conn?_of_lookup hst ht
          refine Or.inr (Or.inl ⟨s, _, t', segs, ⟨hp, hf⟩, hc, ha, ?_⟩)
          rw [hquiet.conn, conn?_emitAll, conn?_setTcb hc, if_pos rfl]
      · refine Or.inl ⟨?_, hreach hf fun h => heq (Option.some.inj h)⟩
        rcases handleOnConnection_cases h with
          ⟨-, hquiet⟩ | ⟨st, t, t', segs, hst, ht, ha, hquiet⟩
        · exact hquiet.conn fd
        · rw [hquiet.conn, conn?_emitAll, conn?_setTcb (conn?_of_lookup hst ht), if_neg heq]
    | none =>
      simp only [hf] at h
      have hno := hreach hf (Option.some_ne_none fd)
      split at h
      · obtain ⟨o, -, h⟩ := bind_eq_ok.mp h
        cases o with
        | none =>
          cases h
          exact Or.inl ⟨rfl, hno⟩
        | some listener =>
          rcases acceptSyn_cases h with rfl | ⟨key, -, hopened⟩
          · exact Or.inl ⟨rfl, hno⟩
          · rw [hopened.conn]
            by_cases heq : fd = k.sockets.nextId
            · have hnone : k.conn? fd = none := by
                cases hc : k.conn? fd with
                | none => rfl
                | some c =>
                  obtain ⟨st, hst, -⟩ := conn?_eq_some.mp hc
                  exact absurd (hs.fresh fd st hst) (heq ▸ Nat.lt_irrefl _)
              exact Or.inr (Or.inr ⟨hnone, _, if_pos heq, _, _, _, _, _, rfl, rfl⟩)
            · exact Or.inl ⟨if_neg heq, hno⟩
      · cases h
        split <;> exact Or.inl ⟨rfl, hno⟩

theorem reapClosed_conn (k : Kernel) (fd : Fd) : k.reapClosed.conn? fd = k.conn? fd
    ∨ (k.reapClosed.conn? fd = none ∧ ∃ c, k.conn? fd = some c ∧ c.fdClosed = true) := by
  have hfold : ∀ {l : List Fd} {k : Kernel}, (l.foldl removeSocket k).conn? fd
      = if fd ∈ l then none else k.conn? fd := by
    intro l
    induction l with
    | nil => exact fun {k} => rfl
    | cons g l ih =>
      intro k
      rw [List.foldl_cons, ih, conn?_removeSocket]
      by_cases h1 : fd ∈ l <;> by_cases h2 : fd = g <;> simp [h1, h2]
  unfold reapClosed
  rw [hfold]
  split
  · rename_i hmem
    obtain ⟨⟨g, st⟩, hentry, rfl⟩ := List.mem_map.mp hmem
    obtain ⟨hentry, hreap⟩ := List.mem_filter.mp hentry
    have hst : k.lookup g = some st := IndexMap.mem_entries.mp hentry
    cases ht : st.tcb with
    | none =>
      refine Or.inl ?_
      rw [conn?, hst, Option.bind_some, ht]
      rfl
    | some t =>
      exact Or.inr ⟨rfl, _, conn?_of_lookup hst ht, (Bool.and_eq_true_iff.mp hreap).1⟩
  · exact Or.inl rfl

/-- One thing a call does to the connection `fd`. -/
def Acts (σ : Scope) (cfg : KernelConfig) (fd : Fd) (c c' : Conn) : Prop :=
  ∃ loc rem a segs, σ.acts fd a ∧ c.tcb.act cfg loc rem a = .ok (c'.tcb, segs)
    ∧ (c'.fdClosed = c.fdClosed ∨ a = .linger) ∧ a.Fits c.tcb

/-- What steps that bring in no segment make of a connection. -/
inductive CallFate (σ : Scope) (fd : Fd) (k k' : Kernel) : Prop
  | acted {c c' : Conn} (hc : k.conn? fd = some c) (hc' : k'.conn? fd = some c')
      (h : Relation.ReflTransGen (Acts σ k.cfg fd) c c')
  | absent (hc : k.conn? fd = none) (hc' : k'.conn? fd = none)
  | opened {c : Conn} (hc : k.conn? fd = none) (hc' : k'.conn? fd = some c) (h : c.tcb.Newborn)
      (hidle : ∀ a, ¬ σ.acts fd a)
  | gone {c c' : Conn} (hc : k.conn? fd = some c) (h : Relation.ReflTransGen (Acts σ k.cfg fd) c c')
      (hend : c'.fdClosed = true ∨ σ.removes fd) (hnone : k'.lookup fd = none)
      (hused : fd < k'.sockets.nextId)

theorem conn?_of_lookup_none (h : k.lookup fd = none) : k.conn? fd = none := by
  rw [conn?, h]
  rfl

/-- Steps that leave the connection alone. -/
theorem CallFate.same {σ : Scope} {b : Kernel} (h : CallFate σ fd k b)
    (hid : b.sockets.nextId ≤ k'.sockets.nextId) (hc : k'.conn? fd = b.conn? fd)
    (hl : b.lookup fd = none → fd < b.sockets.nextId → k'.lookup fd = none) :
    CallFate σ fd k k' := by
  cases h with
  | acted h1 h2 h3 => exact .acted h1 (hc.trans h2) h3
  | absent h1 h2 => exact .absent h1 (hc.trans h2)
  | opened h1 h2 h3 h4 => exact .opened h1 (hc.trans h2) h3 h4
  | gone h1 h2 h3 h4 h5 => exact .gone h1 h2 h3 (hl h4 h5) (Nat.lt_of_lt_of_le h5 hid)

theorem KSteps.fate {σ : Scope} (hin : ∀ l r s, ¬ σ.arrives l r s)
    (hopen : ∀ l r g, σ.opens l r g → ∀ f a, ¬ σ.acts f a) (hs : k.Sound) (h : KSteps σ k k')
    (fd : Fd) : CallFate σ fd k k' := by
  induction h with
  | refl =>
    cases hc : k.conn? fd with
    | none => exact .absent hc hc
    | some c => exact .acted hc hc .refl
  | tail hsteps hstep ih =>
    rename_i b d
    have hsound : b.Sound := hs.steps hsteps
    have hcfg : b.cfg = k.cfg := (KSteps.cfg hsteps).1
    cases hstep with
    | quiet hq =>
      refine ih.same hq.nextId (hq.conn fd) fun hnone hused => ?_
      cases hl : d.lookup fd with
      | none => rfl
      | some st =>
        rcases hq.known fd st hl with ⟨st', hst'⟩ | ⟨hle, -⟩
        · rw [hnone] at hst'
          cases hst'
        · exact absurd hused (Nat.not_lt.mpr hle)
    | act hc ha hin' hq hloc hclosed hfit =>
      rename_i g c t loc rem a segs closed
      have hne : ∀ s, a ≠ .inbound s := fun s heq => hin _ _ _ (hin' s heq).2
      by_cases hg : fd = g
      · subst hg
        have hafter : ((b.putTcb fd t closed).emitAll loc rem segs).conn? fd
            = some ⟨c.bound, t, closed⟩ := by
          rw [conn?_emitAll, conn?_putTcb hc, if_pos rfl]
        cases ih with
        | acted h1 h2 h3 =>
          cases h2.symm.trans hc
          refine .acted h1 hafter (h3.tail ⟨loc, rem, a, segs, hq hne, ?_, hclosed, hfit⟩)
          rw [← hcfg]
          exact ha
        | absent h1 h2 => cases h2.symm.trans hc
        | opened h1 h2 h3 h4 => exact absurd (hq hne) (h4 a)
        | gone h1 h2 h3 h4 h5 => cases (conn?_of_lookup_none h4).symm.trans hc
      · refine ih.same (by rw [emitAll_eq]; exact Nat.le_refl _) ?_ fun hnone _ => ?_
        · rw [conn?_emitAll, conn?_putTcb hc, if_neg hg]
        · rw [emitAll_eq]
          show (b.putTcb g t closed).lookup fd = none
          rw [putTcb, lookup_modifySocket, if_neg hg]
          exact hnone
    | connect hst ht ho hopened =>
      rename_i g st peer loc
      by_cases hg : fd = g
      · subst hg
        have hafter := hopened.conn fd
        rw [if_pos rfl] at hafter
        have hnone : b.conn? fd = none := by
          rw [conn?, hst, Option.bind_some, ht]
          rfl
        have hnew : Tcb.Newborn (Tcb.fresh .synSent peer b.tcpIsn defaultWindow 0) :=
          ⟨_, _, _, _, _, rfl, rfl⟩
        cases ih with
        | acted h1 h2 h3 => cases h2.symm.trans hnone
        | absent h1 h2 => exact .opened h1 hafter hnew (hopen _ _ _ ho fd)
        | opened h1 h2 h3 h4 => exact .opened h1 hafter hnew h4
        | gone h1 h2 h3 h4 h5 => cases h4.symm.trans hst
      · refine ih.same hopened.nextId (by rw [hopened.conn, if_neg hg]) fun hnone _ => ?_
        cases hl : d.lookup fd with
        | none => rfl
        | some st' =>
          rw [hopened.known fd st' hg hl] at hnone
          cases hnone
    | accept hnone hin' => exact absurd hin' (hin _ _ _)
    | reject s hnone hin' => exact absurd hin' (hin _ _ _)
    | reset hc hloc hrm => exact ih.same (Nat.le_refl _) rfl fun hnone _ => hnone
    | remove hrm =>
      rename_i g
      by_cases hg : fd = g
      · subst hg
        have hnone : (b.removeSocket fd).lookup fd = none := by
          rw [lookup_removeSocket, if_pos rfl]
        cases ih with
        | acted h1 h2 h3 =>
          obtain ⟨st, hst, ht, -, hf⟩ := conn?_eq_some.mp h2
          refine .gone h1 h3 ?_ hnone (hsound.fresh fd st hst)
          rcases hrm with hrm | ⟨st', hst', hreap⟩
          · exact Or.inr hrm
          · cases hst.symm.trans hst'
            rw [← hf]
            exact Or.inl (Bool.and_eq_true_iff.mp hreap).1
        | absent h1 h2 => exact .absent h1 (conn?_of_lookup_none hnone)
        | opened h1 h2 h3 h4 => exact .absent h1 (conn?_of_lookup_none hnone)
        | gone h1 h2 h3 h4 h5 => exact .gone h1 h2 h3 hnone h5
      · refine ih.same (Nat.le_refl _) (by rw [conn?_removeSocket, if_neg hg]) fun hnone _ => ?_
        rw [lookup_removeSocket, if_neg hg]
        exact hnone
    | datagram src dst d => exact ih.same (Nat.le_refl _) rfl fun hnone _ => hnone

theorem syscall_fate (hs : k.Sound) {c : Syscall} {r : Reply} (h : k.syscall c = .ok (k', r))
    (fd : Fd) : CallFate (callScope k k' c) fd k k' := by
  refine (syscall_steps hs h).fate ?_ ?_ hs fd
  · cases c <;> exact fun _ _ _ => id
  · cases c with
    | connect => exact fun _ _ _ _ _ _ => id
    | _ => exact fun _ _ _ h => h.elim

/-! ## 4. What holds after every stage -/

theorem Sound.stage (hs : k.Sound) {x : Stage} (h : k.stage x = .ok k') :
    k'.Sound ∧ k'.cfg = k.cfg := by
  have hsteps : ∀ {σ : Scope} {a b : Kernel}, a.Sound → KSteps σ a b → b.Sound ∧ b.cfg = a.cfg :=
    fun ha hab => ⟨ha.steps hab, (KSteps.cfg hab).1⟩
  cases x with
  | call c =>
    cases hc : k.syscall c with
    | error e =>
      rw [Kernel.stage, hc] at h
      cases h
    | ok r =>
      rw [Kernel.stage, hc] at h
      cases h
      exact hsteps hs (syscall_steps hs (show k.syscall c = .ok (r.1, r.2) from hc))
  | deliver pkt =>
    exact hsteps hs (deliver_steps (σ := .any) (fun _ _ => trivial) (fun _ _ _ _ => trivial) h)
  | checkRetx =>
    exact hsteps hs (checkRetx_steps (σ := .any) (fun _ _ _ _ => trivial)
      (fun _ _ _ _ _ => trivial) h)
  | segmentAll => exact hsteps hs (segmentAll_steps (σ := .any) (fun _ _ _ _ => trivial) h)
  | drain =>
    cases h
    exact ⟨⟨hs.fresh, hs.bound, hs.streams⟩, rfl⟩
  | reapClosed =>
    cases h
    exact hsteps hs (reapClosed_steps (σ := .any) k)

end Kernel

end Turmoil.Net
