/-
# What a poll of `connect` reports

`poll_connect` infers the outcome from the state it finds: established is success, and any other
state past the handshake is a refusal, or a timeout if the control block says so.  Whatever arrives
between the SYN-ACK and the poll moves that state.

A client goes through four phases until its application is told (`Dials`): it waits, it is up, the
peer has hung up, or it is down because of a reset or for want of an answer.  Every stage of a run
keeps it in these phases, and the flags and the phase record exactly what has happened
(`Dialling.stages`).  In three of them the poll reports the truth.  In the third, the peer has
finished before the application knew, nothing has failed, and the poll reports a refusal:
`connect_outcome_iff`.
-/
import Turmoil.Net.Stages
import Turmoil.Net.Consistent

namespace Turmoil.Net

/-! ## 1. What has happened -/

namespace Kernel

variable {k k' : Kernel} {fd : Fd} {x : Stage} {xs : List Stage} {p : Kernel → Stage → Prop}

/-- In the course of the stages there was one that satisfies `p`. -/
def Happened (p : Kernel → Stage → Prop) (k : Kernel) (xs : List Stage) : Prop :=
  ∃ pre x post k', xs = pre ++ x :: post ∧ k.stages pre = .ok k' ∧ p k' x

/-- A RST arrives for the socket's connection. -/
def Resets (fd : Fd) (k : Kernel) (x : Stage) : Prop :=
  ∃ pkt s, x = .deliver pkt ∧ k.Reaches pkt s fd ∧ s.flags.rst = true

/-- `check_retx` finds that the attempts are used up. -/
def Exhausts (fd : Fd) (k : Kernel) (x : Stage) : Prop :=
  ∃ c, x = .checkRetx ∧ k.conn? fd = some c ∧ c.tcb.awaitsAck = true
    ∧ k.cfg.retxThreshold ≤ c.tcb.egressSinceAck + 1 ∧ k.cfg.retxMax ≤ c.tcb.retxAttempts

/-- The SYN-ACK arrives that the client waits for. -/
def Accepts (fd : Fd) (k : Kernel) (x : Stage) : Prop :=
  ∃ pkt s c, x = .deliver pkt ∧ k.Reaches pkt s fd ∧ k.conn? fd = some c
    ∧ c.tcb.state = .synSent ∧ s.flags.rst = false ∧ s.flags.syn = true ∧ s.flags.ack = true

theorem happened_nil : ¬ Happened p k [] := by
  rintro ⟨pre, x, post, k', h, -⟩
  exact absurd h (by simp)

theorem happened_cons (h : k.stage x = .ok k') :
    Happened p k (x :: xs) ↔ p k x ∨ Happened p k' xs := by
  constructor
  · rintro ⟨pre, y, post, k1, hxs, hpre, hp⟩
    cases pre with
    | nil =>
      cases hxs
      cases hpre
      exact Or.inl hp
    | cons z pre =>
      obtain ⟨rfl, rfl⟩ := List.cons.inj hxs
      rw [stages_cons, h] at hpre
      exact Or.inr ⟨pre, y, post, k1, rfl, hpre, hp⟩
  · rintro (hp | ⟨pre, y, post, k1, rfl, hpre, hp⟩)
    · exact ⟨[], x, xs, k, rfl, rfl, hp⟩
    · refine ⟨x :: pre, y, post, k1, rfl, ?_, hp⟩
      rw [stages_cons, h]
      exact hpre

end Kernel

/-! ## 2. The phases of a client -/

namespace Tcb

variable {t t' : Tcb} {s : TcpSegment} {A A' : Prop}

/-- The phases of a client, as long as its application only polls; `A` says that the SYN-ACK was
accepted. -/
inductive Dials (A : Prop) (t : Tcb) : Prop
  | waiting (hs : t.state = .synSent) (hup : t.aborted = false) (hfin : t.peerFin = false)
      (ha : ¬ A)
  | up (hs : t.state = .established) (hup : t.aborted = false) (hfin : t.peerFin = false) (ha : A)
  | hungUp (hs : t.state = .closeWait) (hup : t.aborted = false) (hfin : t.peerFin = true) (ha : A)
  | down (hs : t.state = .closed) (hup : t.aborted = true)

theorem Dials.congr (h : t.Dials A) (h1 : t'.state = t.state) (h2 : t'.aborted = t.aborted)
    (h3 : t'.peerFin = t.peerFin) (hA : A ↔ A') : t'.Dials A' := by
  cases h with
  | waiting hs hup hfin ha =>
    exact .waiting (h1.trans hs) (h2.trans hup) (h3.trans hfin) (mt hA.mpr ha)
  | up hs hup hfin ha => exact .up (h1.trans hs) (h2.trans hup) (h3.trans hfin) (hA.mp ha)
  | hungUp hs hup hfin ha => exact .hungUp (h1.trans hs) (h2.trans hup) (h3.trans hfin) (hA.mp ha)
  | down hs hup => exact .down (h1.trans hs) (h2.trans hup)

theorem Dials.abort (reason : AbortReason) (t : Tcb) : (t.abort reason).Dials A := by
  refine .down rfl ?_
  cases reason with
  | reset => rfl
  | timedOut => exact Bool.or_true _

theorem onAck_phase (h : t.onAck s = .ok t') : t'.reset = t.reset ∧ t'.timedOut = t.timedOut
    ∧ t'.peerFin = t.peerFin ∧ (t'.state = t.state ∨ t'.state = t.state.onFinAcked) := by
  unfold Tcb.onAck at h
  split at h
  · obtain ⟨u, hu, h⟩ := bind_eq_ok.mp h
    cases h
    unfold takeAck at hu
    dsimp only at hu
    split at hu
    · obtain ⟨rest, -, hu⟩ := bind_eq_ok.mp hu
      cases hu
      refine ⟨rfl, rfl, rfl, ?_⟩
      dsimp only
      split
      · exact Or.inr rfl
      · exact Or.inl rfl
    · cases hu
      exact ⟨rfl, rfl, rfl, Or.inl rfl⟩
  · cases h
    exact ⟨rfl, rfl, rfl, Or.inl rfl⟩

/-- Payload leaves the phase alone. -/
theorem onData_phase (recvCap : Nat) (t : Tcb) (s : TcpSegment) :
    (t.onData recvCap s).1.state = t.state ∧ (t.onData recvCap s).1.peerFin = t.peerFin := by
  have hcase := onData_case recvCap t s
  generalize t.onData recvCap s = r at hcase ⊢
  cases hcase <;> exact ⟨rfl, rfl⟩

/-- A segment for a client that is up, or whose peer has hung up. -/
theorem handleEstablished_phase {recvCap : Nat} {sendAck : Bool}
    (hs : t.state = .established ∧ t.peerFin = false ∨ t.state = .closeWait ∧ t.peerFin = true)
    (h : t.handleEstablished recvCap s = .ok (t', sendAck)) :
    t'.reset = t.reset ∧ t'.timedOut = t.timedOut
      ∧ (t'.state = .established ∧ t'.peerFin = false
        ∨ t'.state = .closeWait ∧ t'.peerFin = true) := by
  obtain ⟨u, hu, -⟩ := bind_eq_ok.mp h
  rw [handleEstablished_of_onAck hu] at h
  obtain ⟨rfl, -⟩ := Prod.mk.inj (Except.ok.inj h)
  obtain ⟨h1, h2, h3, h4⟩ := onAck_phase hu
  obtain ⟨h5, h6⟩ := onData_onFin_flags recvCap u s
  obtain ⟨h7, h8⟩ := onData_phase recvCap u s
  refine ⟨h5.trans h1, h6.trans h2, ?_⟩
  have hsame : u.state = t.state := by
    rcases h4 with h4 | h4
    · exact h4
    · rw [h4]
      rcases hs with ⟨hs, -⟩ | ⟨hs, -⟩ <;> rw [hs] <;> rfl
  rw [← hsame, ← h3, ← h7, ← h8] at hs
  have hcase := onFin_case (u.onData recvCap s).1 s
  generalize (u.onData recvCap s).1.onFin s = r at hcase ⊢
  cases hcase with
  | taken hfin hopen hseq =>
    rcases hs with ⟨hs, -⟩ | ⟨-, hpf⟩
    · refine Or.inr ⟨?_, rfl⟩
      show (u.onData recvCap s).1.state.onPeerFin = _
      rw [hs]
      rfl
    · cases hpf.symm.trans hopen
  | ignored => exact hs

/-- **A segment arrives.** -/
theorem Dials.onSegment (h : t.Dials A) {recvCap : Nat} {loc rem : SocketAddr}
    {segs : List TcpSegment} (ha : t.onSegment recvCap loc rem s = .ok (t', segs)) :
    t'.Dials (A ∨ (t.state = .synSent ∧ s.flags.rst = false ∧ s.flags.syn = true
        ∧ s.flags.ack = true))
      ∧ (t'.reset = true ↔ t.reset = true ∨ s.flags.rst = true) ∧ t'.timedOut = t.timedOut := by
  unfold Tcb.onSegment at ha
  split at ha
  · rename_i hrst
    cases ha
    exact ⟨.abort .reset t, by simp [Tcb.abort, hrst], rfl⟩
  · rename_i hrst
    -- no reset arrived, and unless the state was left nothing was accepted
    have hkeep : ∀ {u : Tcb}, u.reset = t.reset → (u.reset = true ↔ t.reset = true
        ∨ s.flags.rst = true) := by
      intro u hu
      rw [hu]
      exact ⟨Or.inl, fun hor => hor.resolve_right hrst⟩
    have hpast : t.state ≠ .synSent → (A ↔ A ∨ (t.state = .synSent ∧ s.flags.rst = false
        ∧ s.flags.syn = true ∧ s.flags.ack = true)) :=
      fun hne => ⟨Or.inl, fun hor => hor.resolve_right fun hacc => hne hacc.1⟩
    have hdata : (t.state = .established ∧ t.peerFin = false
        ∨ t.state = .closeWait ∧ t.peerFin = true) → t.aborted = false → A →
        (t.handleEstablished recvCap s >>= fun r => pure (r.1,
          if r.2 then [r.1.ackSegment recvCap loc rem] else [])) = .ok (t', segs) →
        t'.Dials (A ∨ (t.state = .synSent ∧ s.flags.rst = false ∧ s.flags.syn = true
          ∧ s.flags.ack = true))
          ∧ (t'.reset = true ↔ t.reset = true ∨ s.flags.rst = true)
          ∧ t'.timedOut = t.timedOut := by
      intro hs hup hA hrun
      obtain ⟨⟨u, sendAck⟩, hu, hrun⟩ := bind_eq_ok.mp hrun
      cases hrun
      obtain ⟨h1, h2, h3⟩ := handleEstablished_phase hs hu
      have hup' : u.aborted = false := by
        unfold Tcb.aborted
        rw [h1, h2]
        exact hup
      refine ⟨?_, hkeep h1, h2⟩
      rcases h3 with ⟨h3, h4⟩ | ⟨h3, h4⟩
      · exact .up h3 hup' h4 (Or.inl hA)
      · exact .hungUp h3 hup' h4 (Or.inl hA)
    cases h with
    | waiting hs hup hfin hA =>
      rw [hs] at ha
      dsimp only at ha
      split at ha
      · rename_i hsyn
        obtain ⟨h1, h2⟩ := Bool.and_eq_true_iff.mp hsyn
        cases ha
        exact ⟨.up rfl hup hfin (Or.inr ⟨hs, Bool.eq_false_iff.mpr hrst, h1, h2⟩), hkeep rfl, rfl⟩
      · rename_i hsyn
        cases ha
        refine ⟨.waiting hs hup hfin fun hor => hor.elim hA fun hacc => hsyn ?_, hkeep rfl, rfl⟩
        rw [hacc.2.2.1, hacc.2.2.2]
        rfl
    | up hs hup hfin hA =>
      have ha' := ha
      rw [hs] at ha'
      exact hdata (Or.inl ⟨hs, hfin⟩) hup hA ha'
    | hungUp hs hup hfin hA =>
      have ha' := ha
      rw [hs] at ha'
      exact hdata (Or.inr ⟨hs, hfin⟩) hup hA ha'
    | down hs hup =>
      rw [hs] at ha
      cases ha
      exact ⟨.down hs hup, hkeep rfl, rfl⟩

/-- **A pass of `check_retx`.** -/
theorem Dials.swept (h : t.Dials A) (cfg : KernelConfig) : (t.swept cfg).Dials A
    ∧ (t.swept cfg).reset = t.reset
    ∧ ((t.swept cfg).timedOut = true ↔ t.timedOut = true
      ∨ (cfg.retxThreshold ≤ t.egressSinceAck + 1 ∧ cfg.retxMax ≤ t.retxAttempts)) := by
  rw [Tcb.swept_eq]
  by_cases h1 : t.egressSinceAck + 1 < cfg.retxThreshold
  · rw [if_pos h1]
    exact ⟨h.congr rfl rfl rfl .rfl, rfl, Or.inl, fun hor => hor.resolve_right fun h => by omega⟩
  · rw [if_neg h1]
    by_cases h2 : t.retxAttempts ≥ cfg.retxMax
    · rw [if_pos h2]
      exact ⟨.abort .timedOut _, rfl, fun _ => Or.inr ⟨Nat.not_lt.mp h1, h2⟩, fun _ => rfl⟩
    · rw [if_neg h2]
      have hiff : t.timedOut = true ↔ t.timedOut = true
          ∨ (cfg.retxThreshold ≤ t.egressSinceAck + 1 ∧ cfg.retxMax ≤ t.retxAttempts) :=
        ⟨Or.inl, fun hor => hor.resolve_right fun h => h2 h.2⟩
      split
      · exact ⟨h.congr rfl rfl rfl .rfl, rfl, hiff⟩
      · exact ⟨h.congr rfl rfl rfl .rfl, rfl, hiff⟩

end Tcb

/-! ## 3. Along a run -/

/-- The application does nothing with this socket but poll its connection, and closes none. -/
def Stage.leaves (fd : Fd) : Stage → Bool
  | .call (.close _) => false
  | .call (.connect _ _) => true
  | .call c => c.fd? != some fd
  | _ => true

namespace Kernel

variable {k k' : Kernel} {fd : Fd} {x : Stage} {xs : List Stage} {R E A : Prop}

/-- A client whose application only polls: what its control block says has happened, has. -/
structure Dialling (fd : Fd) (R E A : Prop) (k : Kernel) : Prop where
  sound : k.Sound
  conn : ∃ c, k.conn? fd = some c ∧ c.fdClosed = false ∧ (c.tcb.reset = true ↔ R)
    ∧ (c.tcb.timedOut = true ↔ E) ∧ c.tcb.Dials A

/-- A call that leaves the socket alone does nothing to its connection. -/
theorem same_of_leaves (hs : k.Sound) {c : Syscall} {r : Reply}
    (hleaves : (Stage.call c).leaves fd = true) (h : k.syscall c = .ok (k', r)) {x : Conn}
    (hc : k.conn? fd = some x) (hopen : x.fdClosed = false) : k'.conn? fd = some x := by
  have hacts : ∀ a, ¬ (callScope k k' c).acts fd a := by
    intro a ha
    cases c <;> first
      | exact ha
      | (obtain ⟨rfl, -⟩ := ha; simp [Stage.leaves, Syscall.fd?] at hleaves)
  have hstay : ∀ {y : Conn}, Relation.ReflTransGen (Acts (callScope k k' c) k.cfg fd) x y →
      y = x := by
    intro y hy
    cases hy with
    | refl => rfl
    | tail _ hlast =>
      obtain ⟨loc, rem, a, segs, ha, -⟩ := hlast
      exact absurd ha (hacts a)
  have hremoves : ¬ (callScope k k' c).removes fd := by
    cases c with
    | close g => cases hleaves
    | _ => exact id
  cases syscall_fate hs h fd with
  | acted h1 h2 h3 =>
    cases hc.symm.trans h1
    rw [h2, hstay h3]
  | absent h1 h2 => cases hc.symm.trans h1
  | opened h1 h2 h3 h4 => cases hc.symm.trans h1
  | gone h1 h2 h3 h4 h5 =>
    cases hc.symm.trans h1
    rw [hstay h2, hopen] at h3
    exact absurd h3 (by simp [hremoves])

/-- Neither a packet nor the check: nothing has happened. -/
theorem Dialling.same (hk : k.Dialling fd R E A) (hs : k'.Sound)
    (hconn : ∀ c, k.conn? fd = some c → c.fdClosed = false → ∃ c', k'.conn? fd = some c'
      ∧ c'.fdClosed = false ∧ c'.tcb.state = c.tcb.state ∧ c'.tcb.reset = c.tcb.reset
      ∧ c'.tcb.timedOut = c.tcb.timedOut ∧ c'.tcb.peerFin = c.tcb.peerFin)
    (hdeliver : ∀ pkt, x ≠ .deliver pkt) (hcheck : x ≠ .checkRetx) :
    k'.Dialling fd (R ∨ Resets fd k x) (E ∨ Exhausts fd k x) (A ∨ Accepts fd k x) := by
  have hR : ¬ Resets fd k x := fun ⟨pkt, s, hx, _⟩ => hdeliver pkt hx
  have hE : ¬ Exhausts fd k x := fun ⟨c, hx, _⟩ => hcheck hx
  have hA : ¬ Accepts fd k x := fun ⟨pkt, s, c, hx, _⟩ => hdeliver pkt hx
  rw [or_iff_left hR, or_iff_left hE, or_iff_left hA]
  obtain ⟨c, hc, hopen, hr, he, hd⟩ := hk.conn
  obtain ⟨c', hc', hopen', h1, h2, h3, h4⟩ := hconn c hc hopen
  refine ⟨hs, c', hc', hopen', by rw [h2]; exact hr, by rw [h3]; exact he, ?_⟩
  refine hd.congr h1 ?_ h4 .rfl
  unfold Tcb.aborted
  rw [h2, h3]

/-- **One stage.** -/
theorem Dialling.stage (hk : k.Dialling fd R E A) (hleaves : x.leaves fd = true)
    (h : k.stage x = .ok k') :
    k'.Dialling fd (R ∨ Resets fd k x) (E ∨ Exhausts fd k x) (A ∨ Accepts fd k x) := by
  have hsound := (hk.sound.stage h).1
  obtain ⟨c, hc, hopen, hr, he, hd⟩ := hk.conn
  have hkept : k'.conn? fd = some c → ∀ c0, k.conn? fd = some c0 → c0.fdClosed = false →
      ∃ c', k'.conn? fd = some c' ∧ c'.fdClosed = false ∧ c'.tcb.state = c0.tcb.state
        ∧ c'.tcb.reset = c0.tcb.reset ∧ c'.tcb.timedOut = c0.tcb.timedOut
        ∧ c'.tcb.peerFin = c0.tcb.peerFin := by
    intro hc' c0 hc0 hopen0
    cases hc.symm.trans hc0
    exact ⟨c, hc', hopen0, rfl, rfl, rfl, rfl⟩
  cases x with
  | call call =>
    cases hcall : k.syscall call with
    | error e =>
      rw [Kernel.stage, hcall] at h
      cases h
    | ok r =>
      rw [Kernel.stage, hcall] at h
      cases h
      exact hk.same hsound (hkept (same_of_leaves hk.sound hleaves
        (show k.syscall call = .ok (r.1, r.2) from hcall) hc hopen)) (fun _ h => by cases h) (fun h => by cases h)
  | deliver pkt =>
    have hE : ¬ Exhausts fd k (.deliver pkt) := by
      rintro ⟨_, hx, -⟩
      cases hx
    rw [or_iff_left hE]
    rcases deliver_conn hk.sound h fd with ⟨hsame, hno⟩ | ⟨s, c1, t, segs, hreach, hc1, ha, hc'⟩ |
        ⟨hnone, -⟩
    · have hR : ¬ Resets fd k (.deliver pkt) := by
        rintro ⟨pkt', s, hx, hreach, -⟩
        cases hx
        cases (hno s hreach).symm.trans hc
      have hA : ¬ Accepts fd k (.deliver pkt) := by
        rintro ⟨pkt', s, c', hx, hreach, -⟩
        cases hx
        cases (hno s hreach).symm.trans hc
      rw [or_iff_left hR, or_iff_left hA]
      exact ⟨hsound, c, hsame.trans hc, hopen, hr, he, hd⟩
    · cases hc.symm.trans hc1
      obtain ⟨h1, h2, h3⟩ := hd.onSegment ha
      have honly : ∀ s', k.Reaches pkt s' fd → s' = s := by
        intro s' hs'
        cases hs'.1.symm.trans hreach.1
        rfl
      have hR : Resets fd k (.deliver pkt) ↔ s.flags.rst = true := by
        constructor
        · rintro ⟨pkt', s', hx, hs', hrst⟩
          cases hx
          rw [← honly s' hs']
          exact hrst
        · exact fun hrst => ⟨pkt, s, rfl, hreach, hrst⟩
      have hA : Accepts fd k (.deliver pkt) ↔ (c.tcb.state = .synSent ∧ s.flags.rst = false
          ∧ s.flags.syn = true ∧ s.flags.ack = true) := by
        constructor
        · rintro ⟨pkt', s', c', hx, hs', hc', hacc⟩
          cases hx
          cases hc.symm.trans hc'
          rw [← honly s' hs']
          exact hacc
        · exact fun hacc => ⟨pkt, s, c, rfl, hreach, hc, hacc⟩
      refine ⟨hsound, _, hc', hopen, ?_, by rw [h3]; exact he, ?_⟩
      · rw [hR, ← hr]
        exact h2
      · rw [hA]
        exact h1
    · cases hnone.symm.trans hc
  | checkRetx =>
    have hR : ¬ Resets fd k .checkRetx := by
      rintro ⟨_, _, hx, -⟩
      cases hx
    have hA : ¬ Accepts fd k .checkRetx := by
      rintro ⟨_, _, _, hx, -⟩
      cases hx
    rw [or_iff_left hR, or_iff_left hA]
    have hafter := checkRetx_conn h fd
    rw [hc, Option.map_some] at hafter
    by_cases hw : c.tcb.awaitsAck = true
    · rw [if_pos hw] at hafter
      obtain ⟨h1, h2, h3⟩ := hd.swept k.cfg
      refine ⟨hsound, _, hafter, hopen, by rw [← hr]; exact Iff.of_eq (congrArg (· = true) h2), ?_,
        h1⟩
      refine h3.trans (or_congr he ?_)
      constructor
      · exact fun hend => ⟨c, rfl, hc, hw, hend⟩
      · rintro ⟨c', -, hc', -, hend⟩
        cases hc.symm.trans hc'
        exact hend
    · rw [if_neg hw] at hafter
      have hE : ¬ Exhausts fd k .checkRetx := by
        rintro ⟨c', -, hc', hw', -⟩
        cases hc.symm.trans hc'
        exact hw hw'
      rw [or_iff_left hE]
      exact ⟨hsound, c, hafter, hopen, hr, he, hd⟩
  | segmentAll =>
    obtain ⟨next, hnext⟩ := segmentAll_conn h fd
    refine hk.same hsound (fun c0 hc0 hopen0 => ?_) (fun _ h => by cases h) (fun h => by cases h)
    rw [hc0, Option.map_some] at hnext
    exact ⟨_, hnext, hopen0, rfl, rfl, rfl, rfl⟩
  | drain =>
    cases h
    exact hk.same hsound (hkept hc) (fun _ h => by cases h) (fun h => by cases h)
  | reapClosed =>
    cases h
    rcases reapClosed_conn k fd with hsame | ⟨-, c', hc', hclosed⟩
    · exact hk.same hsound (hkept (hsame.trans hc)) (fun _ h => by cases h) (fun h => by cases h)
    · cases hc.symm.trans hc'
      cases hopen.symm.trans hclosed

/-- **A whole run.** -/
theorem Dialling.stages : ∀ {xs : List Stage} {k : Kernel} {R E A : Prop}, k.Dialling fd R E A →
    (∀ x ∈ xs, x.leaves fd = true) → k.stages xs = .ok k' →
    k'.Dialling fd (R ∨ Happened (Resets fd) k xs) (E ∨ Happened (Exhausts fd) k xs)
      (A ∨ Happened (Accepts fd) k xs) := by
  intro xs
  induction xs with
  | nil =>
    intro k R E A hk _ h
    cases h
    rw [or_iff_left happened_nil, or_iff_left happened_nil, or_iff_left happened_nil]
    exact hk
  | cons x xs ih =>
    intro k R E A hk hleaves h
    obtain ⟨hx, hxs⟩ := List.forall_mem_cons.mp hleaves
    rw [stages_cons] at h
    obtain ⟨k1, h1, h⟩ := bind_eq_ok.mp h
    have hend := ih (hk.stage hx h1) hxs h
    rw [or_assoc, or_assoc, or_assoc] at hend
    rw [happened_cons h1, happened_cons h1, happened_cons h1]
    exact hend

/-! ## 4. The poll -/

theorem startConnect_conn {st : Socket} {peer : SocketAddr} (hst : k.lookup fd = some st)
    (h : k.startConnect fd peer = .ok k') : k'.conn? fd
      = some ⟨st.bound, Tcb.fresh .synSent peer k.tcpIsn defaultWindow 0, st.fdClosed⟩ := by
  obtain ⟨src, -, h⟩ := bind_eq_ok.mp h
  obtain ⟨st', -, h⟩ := bind_eq_ok.mp h
  obtain ⟨sockets, hs, h⟩ := bind_eq_ok.mp h
  unfold SocketTable.insertConnection at hs
  split at hs
  · cases hs
  · cases hs
    cases h
    have hst' : k.sockets.sockets.get? fd = some st := hst
    rw [conn?, lookup_emit]
    simp only [lookup, SocketTable.get, modifySocket, SocketTable.modify, IndexMap.get?_modify,
      if_true, hst', Option.map_some, Option.bind_some]

theorem Tidy.sound {own : Fd → Option Handle} {live : Fd → Prop} (h : k.Tidy own live) :
    k.Sound where
  fresh := h.fresh
  bound := fun fd c hc => by
    obtain ⟨st, hst, ht, hb, -⟩ := conn?_eq_some.mp hc
    rw [← hb]
    exact ((h.socket fd st hst).tcb (by rw [ht]; exact Option.some_ne_none _)).2.1
  streams := fun fd st hst hor => by
    have hfit := h.socket fd st hst
    rcases Bool.or_eq_true_iff.mp hor with ht | hl
    · exact (hfit.tcb fun hnone => by rw [hnone] at ht; cases ht).1
    · exact (hfit.listen fun hnone => by rw [hnone] at hl; cases hl).1

/-- **The first poll** leaves a client that waits. -/
theorem dialling_of_first {own : Fd → Option Handle} {live : Fd → Prop} {peer : SocketAddr}
    (ht : k.Tidy own live) (hown : own fd = some (.connecting peer)) (hnew : k.conn? fd = none)
    (h : k.tcpPollConnect fd peer = .ok (k', .pending)) : k'.Dialling fd False False False := by
  obtain ⟨st, hst⟩ := ht.lookup_of_own hown
  have ht' : k'.Tidy own live := ((tcpPollConnect_safe ht hst hown).of_ok h).1
  have htcb : st.tcb = none := by
    rw [conn?, hst, Option.bind_some] at hnew
    exact Option.map_eq_none_iff.mp hnew
  obtain ⟨st1, hst1, h⟩ := bind_eq_ok.mp h
  cases (expect_eq_ok.mp hst1).symm.trans hst
  simp only [htcb] at h
  obtain ⟨⟨k1, bound⟩, h1, h⟩ := bind_eq_ok.mp h
  obtain ⟨-, st2, hst2, -⟩ := ensureBound_steps (σ := .any) ht.sound hst h1
  dsimp only at h
  cases bound with
  | error e => cases h
  | ok _ =>
    obtain ⟨k2, h2, h⟩ := bind_eq_ok.mp h
    cases h
    have hc := startConnect_conn hst2 h2
    obtain ⟨st', hst', -, -, hf⟩ := conn?_eq_some.mp hc
    refine ⟨ht'.sound, _, hc, ?_, iff_of_false Bool.false_ne_true not_false,
      iff_of_false Bool.false_ne_true not_false,
      .waiting rfl rfl rfl not_false⟩
    rw [← hf]
    exact ((ht'.socket fd st' hst').serves _ hown).1

/-- The poll's answer agrees with what has happened. -/
structure ToldTruly (fd : Fd) (k : Kernel) (xs : List Stage) (r : Poll (Except NetError Unit)) :
    Prop where
  refused : r = .ready (.error .connectionRefused) → Happened (Resets fd) k xs
  timedOut : r = .ready (.error .timedOut) → Happened (Exhausts fd) k xs
  connected : Happened (Accepts fd) k xs → ¬ Happened (Resets fd) k xs →
    ¬ Happened (Exhausts fd) k xs → r = .ready (.ok ())

/-- In three of the four phases the poll tells the truth. -/
theorem toldTruly_iff {k₁ : Kernel} (hk₁ : k₁.Dialling fd False False False)
    (hxs : ∀ x ∈ xs, x.leaves fd = true) (hstages : k₁.stages xs = .ok k) {peer : SocketAddr}
    {r : Poll (Except NetError Unit)} (hpoll : k.tcpPollConnect fd peer = .ok (k', r)) :
    ToldTruly fd k₁ xs r
      ↔ ∀ c, k.conn? fd = some c → c.tcb.peerFin = true → c.tcb.aborted = true := by
  have hk := hk₁.stages hxs hstages
  rw [false_or, false_or, false_or] at hk
  obtain ⟨c, hc, -, hr, he, hd⟩ := hk.conn
  have hstatus : r = connectStatus c.tcb := by
    obtain ⟨st, hst, ht, -⟩ := conn?_eq_some.mp hc
    obtain ⟨st', hst', hpoll⟩ := bind_eq_ok.mp hpoll
    cases (expect_eq_ok.mp hst').symm.trans hst
    simp only [ht] at hpoll
    cases hpoll
    rfl
  have hcond : (∀ c', k.conn? fd = some c' → c'.tcb.peerFin = true → c'.tcb.aborted = true)
      ↔ (c.tcb.peerFin = true → c.tcb.aborted = true) := by
    constructor
    · exact fun hall => hall c hc
    · intro hone c' hc'
      cases hc.symm.trans hc'
      exact hone
  rw [hcond, hstatus]
  cases hd with
  | waiting hs hup hfin ha =>
    refine iff_of_true ⟨fun h => ?_, fun h => ?_, fun h => absurd h ha⟩ fun h => ?_
    · rw [connectStatus, hs] at h
      cases h
    · rw [connectStatus, hs] at h
      cases h
    · cases hfin.symm.trans h
  | up hs hup hfin ha =>
    refine iff_of_true ⟨fun h => ?_, fun h => ?_, fun _ _ _ => ?_⟩ fun h => ?_
    · rw [connectStatus, hs] at h
      cases h
    · rw [connectStatus, hs] at h
      cases h
    · rw [connectStatus, hs]
    · cases hfin.symm.trans h
  | hungUp hs hup hfin ha =>
    -- the phase in which the poll reports a refusal, and nothing has failed
    obtain ⟨hreset, htimed⟩ := Bool.or_eq_false_iff.mp hup
    refine iff_of_false (fun htold => ?_) fun hall => ?_
    · have hstatus : connectStatus c.tcb = .ready (.error .connectionRefused) := by
        rw [connectStatus, hs]
        simp [htimed]
      cases hreset.symm.trans (hr.mpr (htold.refused hstatus))
    · cases hup.symm.trans (hall hfin)
  | down hs hup =>
    have hstatus : connectStatus c.tcb
        = if c.tcb.timedOut then .ready (.error .timedOut)
          else .ready (.error .connectionRefused) := by
      rw [connectStatus, hs]
    have hwhy : Happened (Resets fd) k₁ xs ∨ Happened (Exhausts fd) k₁ xs := by
      rw [← hr, ← he]
      exact Bool.or_eq_true_iff.mp hup
    refine iff_of_true ⟨fun h => ?_, fun h => ?_, fun _ h1 h2 => absurd hwhy (by simp [h1, h2])⟩
      fun _ => hup
    · rw [hstatus] at h
      split at h
      · cases h
      · rename_i htimed
        exact hwhy.resolve_right fun hex => htimed (he.mpr hex)
    · rw [hstatus] at h
      split at h
      · rename_i htimed
        exact he.mp htimed
      · cases h

/-- **The outcome of `connect`.**  Whatever arrives and whichever passes are made between the first
poll of a client and a later one: that poll tells the truth if and only if no FIN of the peer has
been taken in, or the connection was aborted as well. -/
theorem connect_outcome_iff (cfg : KernelConfig) (addrs : List IpAddr) (ops : List ShimOp)
    {h : Host} (hrun : (Host.new cfg addrs).run ops = .ok h) {peer : SocketAddr}
    (hown : h.handles.get? fd = some (.connecting peer)) (hnew : h.kernel.conn? fd = none)
    {k₁ : Kernel} (hfirst : h.kernel.tcpPollConnect fd peer = .ok (k₁, .pending))
    (hxs : ∀ x ∈ xs, x.leaves fd = true) (hstages : k₁.stages xs = .ok k)
    {r : Poll (Except NetError Unit)} (hpoll : k.tcpPollConnect fd peer = .ok (k', r)) :
    ToldTruly fd k₁ xs r
      ↔ ∀ c, k.conn? fd = some c → c.tcb.peerFin = true → c.tcb.aborted = true := by
  have htidy : h.Tidy := (Host.run_safe (Host.new_tidy cfg addrs)).of_ok hrun
  exact toldTruly_iff (dialling_of_first htidy hown hnew hfirst) hxs hstages hpoll

/-- A server that a client connects to. -/
def serverAddr : SocketAddr := ⟨.v4 0x0A000002, 80⟩

/-- A client that has begun to connect. -/
def caller : Host := ((Host.new .default [.v4 0x0A000001]).connect serverAddr).1

/-- A segment from the server, for the first connection of the client. -/
def fromServerAddr (seq ack : UInt32) (flags : TcpFlags) : Stage :=
  .deliver ⟨.v4 0x0A000002, .v4 0x0A000001, 64, .tcp ⟨80, 49152, seq, ack, flags, 65535, []⟩⟩

/-- The SYN-ACK arrives, and the end of the server's stream or not. -/
def answered (fin : Bool) : List Stage :=
  [.checkRetx, .segmentAll, .drain, .reapClosed,
    fromServerAddr 500 0x1000001 { syn := true, ack := true },
    fromServerAddr 501 0x1000001 { ack := true, fin := fin }]

theorem answered_leaves (fin : Bool) : ∀ x ∈ answered fin, x.leaves 1 = true := by
  cases fin <;> decide

/-- The first poll, what follows, and what there is then at the next one: has the peer's FIN been
taken in? -/
def dials (xs : List Stage) : Option (Bool × Bool) :=
  (caller.kernel.tcpPollConnect 1 serverAddr).toOption.bind fun first =>
    (first.1.stages xs).toOption.bind fun k =>
      (k.conn? 1).bind fun c =>
        match first.2 with
        | .pending => some (c.tcb.peerFin, c.tcb.aborted)
        | .ready _ => none

theorem dials_eq_some {xs : List Stage} {b1 b2 : Bool} (h : dials xs = some (b1, b2)) :
    ∃ k₁ k c r, caller.kernel.tcpPollConnect 1 serverAddr = .ok (k₁, .pending)
      ∧ k₁.stages xs = .ok k ∧ k.tcpPollConnect 1 serverAddr = .ok (k, r)
      ∧ k.conn? 1 = some c ∧ c.tcb.peerFin = b1 ∧ c.tcb.aborted = b2 := by
  obtain ⟨⟨k₁, r₁⟩, hk₁, h⟩ := Option.bind_eq_some_iff.mp h
  obtain ⟨k, hk, h⟩ := Option.bind_eq_some_iff.mp h
  obtain ⟨c, hc, h⟩ := Option.bind_eq_some_iff.mp h
  cases r₁ with
  | ready r => cases h
  | pending =>
    cases h
    obtain ⟨st, hst, ht, -⟩ := conn?_eq_some.mp hc
    refine ⟨k₁, k, c, connectStatus c.tcb, toOption_eq_some.mp hk₁, toOption_eq_some.mp hk, ?_, hc,
      rfl, rfl⟩
    rw [tcpPollConnect, hst]
    refine bind_eq_ok.mpr ⟨st, rfl, ?_⟩
    simp only [ht]
    rfl

/-- The SYN-ACK and nothing else: the poll reports success. -/
theorem connect_outcome_iff_answered : ∃ k₁ k r,
    caller.kernel.tcpPollConnect 1 serverAddr = .ok (k₁, .pending)
      ∧ k₁.stages (answered false) = .ok k ∧ k.tcpPollConnect 1 serverAddr = .ok (k, r)
      ∧ ToldTruly 1 k₁ (answered false) r := by
  have hdials : dials (answered false) = some (false, false) := by
    decide +kernel
  obtain ⟨k₁, k, c, r, hk₁, hk, hpoll, hc, hfin, -⟩ := dials_eq_some hdials
  refine ⟨k₁, k, r, hk₁, hk, hpoll, (connect_outcome_iff .default [.v4 0x0A000001]
    [.connect serverAddr] rfl rfl rfl hk₁ (answered_leaves false) hk hpoll).mpr ?_⟩
  intro c' hc' hfin'
  cases hc.symm.trans hc'
  cases hfin.symm.trans hfin'

/-- The server says something short and hangs up: the poll reports a refusal. -/
theorem hung_up_is_refused : ∃ k₁ k r,
    caller.kernel.tcpPollConnect 1 serverAddr = .ok (k₁, .pending)
      ∧ (∀ x ∈ answered true, x.leaves 1 = true)
      ∧ k₁.stages (answered true) = .ok k ∧ k.tcpPollConnect 1 serverAddr = .ok (k, r)
      ∧ ¬ ToldTruly 1 k₁ (answered true) r := by
  have hdials : dials (answered true) = some (true, false) := by
    decide +kernel
  obtain ⟨k₁, k, c, r, hk₁, hk, hpoll, hc, hfin, hup⟩ := dials_eq_some hdials
  have htidy : caller.Tidy := Host.connect_tidy (Host.new_tidy _ _) serverAddr
  refine ⟨k₁, k, r, hk₁, answered_leaves true, hk, hpoll, fun htold => ?_⟩
  have hcond := (toldTruly_iff (dialling_of_first htidy rfl rfl hk₁) (answered_leaves true) hk
    hpoll).mp htold
  cases hup.symm.trans (hcond c hc hfin)

end Kernel

end Turmoil.Net
