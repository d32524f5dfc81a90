/-
# The state of a connection that is being closed

A connection past its handshake is closed in two directions, and `kernel/tcp.rs` spreads the work:
an acknowledgement can cover our FIN, a segment can bring the peer's, `poll_shutdown_write` and
`close` shut our side.  Each of them looks at the state and moves it on, and leaves it alone in the
states it does not expect.  Three facts say where it must stand: whether our side is shut, whether
the peer's FIN was accepted, whether ours was acknowledged.

The argument.  `TcpState.fits` reads the state off the three facts.  Each of the three moves turns
one of the facts on and takes a fitting state to a fitting one (`fits_onFinAcked`,
`fits_onPeerFin`, `fits_onShutdown`), so the arms that leave the state alone are never reached with
a fact that is new.  Which acts turn a fact on is what `Net.SeqSpace` says.  The one act that could
break it is a shutdown in the middle of the handshake; the application cannot make it before it was
given the descriptor, and what `connect` or `accept` gave out is past its handshake (`Past`).
-/
import Mathlib.Data.List.Induction
import Turmoil.Net.InRange

namespace Turmoil.Net

/-! ## 1. The three facts -/

/-- Is this the state of a connection past its handshake, given whether its write side is shut,
the peer's FIN accepted, and its own FIN acknowledged? -/
def TcpState.fits (wrClosed peerFin finAcked : Bool) : TcpState → Bool
  | .established => !wrClosed && !peerFin && !finAcked
  | .closeWait => !wrClosed && peerFin && !finAcked
  | .finWait1 => wrClosed && !peerFin && !finAcked
  | .finWait2 => wrClosed && !peerFin && finAcked
  | .closing | .lastAck => wrClosed && peerFin && !finAcked
  | .closed => wrClosed && peerFin && finAcked
  | .synSent | .synReceived => false

namespace TcpState

variable {st : TcpState} {w p f : Bool}

theorem fits_onFinAcked (h : st.fits true p false = true) : st.onFinAcked.fits true p true = true := by
  cases st <;> simp_all [fits, onFinAcked]

theorem fits_onPeerFin (h : st.fits w false f = true) : st.onPeerFin.fits w true f = true := by
  cases st <;> simp_all [fits, onPeerFin]

theorem fits_onShutdown (h : st.fits false p false = true) :
    st.onShutdown.fits true p false = true := by
  cases st <;> simp_all [fits, onShutdown]

theorem not_handshake_onFinAcked (h : st.handshake = false) : st.onFinAcked.handshake = false := by
  cases st <;> simp_all [handshake, onFinAcked]

theorem not_handshake_onPeerFin (h : st.handshake = false) : st.onPeerFin.handshake = false := by
  cases st <;> simp_all [handshake, onPeerFin]

theorem not_handshake_onShutdown (h : st.handshake = false) : st.onShutdown.handshake = false := by
  cases st <;> simp_all [handshake, onShutdown]

end TcpState

namespace Tcb

variable {cfg : KernelConfig} {t t' : Tcb} {n : Nat}

/-- **The state is determined by the three facts.** -/
structure StateByFacts (t : Tcb) : Prop where
  established : t.state = .established
    ↔ t.wrClosed = false ∧ t.peerFin = false ∧ t.finAcked = false
  closeWait : t.state = .closeWait
    ↔ t.wrClosed = false ∧ t.peerFin = true ∧ t.finAcked = false
  finWait1 : t.state = .finWait1
    ↔ t.wrClosed = true ∧ t.peerFin = false ∧ t.finAcked = false
  finWait2 : t.state = .finWait2
    ↔ t.wrClosed = true ∧ t.peerFin = false ∧ t.finAcked = true
  closing : t.state = .closing ∨ t.state = .lastAck
    ↔ t.wrClosed = true ∧ t.peerFin = true ∧ t.finAcked = false
  closed : t.state = .closed ↔ t.wrClosed = true ∧ t.peerFin = true ∧ t.finAcked = true

theorem stateByFacts_of_fits (h : t.state.fits t.wrClosed t.peerFin t.finAcked = true) :
    t.StateByFacts := by
  constructor <;> revert h <;> cases t.state <;> cases t.wrClosed <;> cases t.peerFin <;>
    cases t.finAcked <;> decide

/-- The invariant of a control block: in the handshake neither side is shut, and after it the
state fits the facts unless the connection was aborted. -/
structure Closes (t : Tcb) : Prop where
  opening : t.state.handshake = true → t.wrClosed = false ∧ t.peerFin = false
  settled : t.aborted = false → t.state.handshake = false →
    t.state.fits t.wrClosed t.peerFin t.finAcked = true

theorem abortError_eq_none : t.abortError = none ↔ t.aborted = false := by
  unfold abortError aborted
  cases t.reset <;> cases t.timedOut <;> simp

theorem pollShutdownWrite_of_open (hlive : t.abortError = none) (hopen : t.wrClosed = false) :
    t.pollShutdownWrite = (t.shutWrite, .ready (.ok ())) := by
  simp only [pollShutdownWrite, hlive, hopen, Bool.false_eq_true, if_false]

theorem finAcked_of_finSeq_none (h : t.finSeq = none) : t.finAcked = false := by
  rw [finAcked, h]

/-- A FIN behind bytes that are still in the buffer is not acknowledged. -/
theorem finAcked_of_serial {l : Nat} (h : t.finSeq = some (serial t.sndUna l))
    (hlen : l < 2 ^ 32 - 1) : t.finAcked = false := by
  rw [finAcked, h]
  simp only [beq_eq_false_iff_ne]
  intro heq
  rw [serial_add_one] at heq
  nth_rewrite 1 [← serial_zero t.sndUna] at heq
  have := (serial_inj (by omega) (by omega)).mp heq
  omega

theorem finAcked_congr (h1 : t'.finSeq = t.finSeq) (h2 : t'.sndUna = t.sndUna) :
    t'.finAcked = t.finAcked := by
  rw [finAcked, finAcked, h1, h2]

theorem SeqSpace.finAcked_of_open (h : t.SeqSpace cfg n) (hw : t.wrClosed = false) :
    t.finAcked = false :=
  finAcked_of_finSeq_none (h.writing hw).1

/-- An act that leaves the facts and the state alone, or the whole control block aborted. -/
theorem Closes.congr (h : t.Closes) (h1 : t'.state = t.state) (h2 : t'.wrClosed = t.wrClosed)
    (h3 : t'.peerFin = t.peerFin) (h4 : t'.finSeq = t.finSeq) (h5 : t'.sndUna = t.sndUna)
    (h6 : t'.aborted = t.aborted) : t'.Closes := by
  constructor
  · rw [h1, h2, h3]
    exact h.opening
  · rw [h1, h2, h3, h6, finAcked_congr h4 h5]
    exact h.settled

theorem Closes.abort (reason : AbortReason) (t : Tcb) : (t.abort reason).Closes := by
  refine ⟨fun h => ?_, fun h => ?_⟩
  · cases h
  · cases reason <;> simp [Tcb.abort, aborted] at h

/-- The last step of the handshake: both sides are open. -/
theorem Closes.opened (h : t.Closes) (hn : t.Numbered cfg) (hs : t.state.handshake = true)
    (h1 : t'.state = .established) (h2 : t'.wrClosed = t.wrClosed) (h3 : t'.peerFin = t.peerFin)
    (h4 : t'.finSeq = t.finSeq) : t'.Closes := by
  have hnot : t.state ≠ .closed := fun e => by
    rw [e] at hs
    cases hs
  obtain ⟨m, hm⟩ := hn.seqSpace_of_state hnot
  obtain ⟨hw, hp⟩ := h.opening hs
  constructor
  · intro _
    rw [h2, h3]
    exact ⟨hw, hp⟩
  · intro _ _
    rw [h1, h2, h3, hw, hp, finAcked_of_finSeq_none (h4.trans (hm.writing hw).1)]
    rfl

/-! ## 2. Every act -/

section
variable (hcap : cfg.sendBufCap < 2 ^ 32 - 1)
include hcap

/-- Shutting the write side of a connection past its handshake. -/
theorem Closes.shutWrite (h : t.Closes) (hn : t.SeqSpace cfg n) (hlive : t.aborted = false)
    (hopen : t.wrClosed = false) (hpast : t.state.handshake = false) : t.shutWrite.Closes := by
  have hlen := hn.sendLen
  have hfits := h.settled hlive hpast
  rw [hopen, hn.finAcked_of_open hopen] at hfits
  have hshut := TcpState.not_handshake_onShutdown hpast
  constructor
  · intro hs
    exact absurd (hshut.symm.trans hs) (by decide)
  · intro _ _
    have hacked : t.shutWrite.finAcked = false :=
      finAcked_of_serial (l := t.sendBuf.length) rfl (by omega)
    rw [hacked]
    exact TcpState.fits_onShutdown hfits

/-- What an acknowledgement does to the state. -/
theorem Closes.ackCase {s : TcpSegment} (h : t.Closes) (hn : t.SeqSpace cfg n)
    (hlive : t.aborted = false) (hpast : t.state.handshake = false) (hc : AckCase t n s t') :
    t'.aborted = false ∧ t'.state.handshake = false
      ∧ t'.state.fits t'.wrClosed t'.peerFin t'.finAcked = true := by
  have hlen := hn.sendLen
  have hfits := h.settled hlive hpast
  cases hc with
  | silent hack => exact ⟨hlive, hpast, hfits⟩
  | stale hack hout => exact ⟨hlive, hpast, hfits⟩
  | data a hack hpos hle hlena hs =>
    -- the FIN is behind what is left in the buffer, before and after
    refine ⟨hlive, hpast, ?_⟩
    have hboth : t.finAcked = false ∧ (t.ackedData a s.window).finAcked = false := by
      cases hw : t.wrClosed with
      | false =>
        have hnone := (hn.writing hw).1
        exact ⟨finAcked_of_finSeq_none hnone, finAcked_of_finSeq_none hnone⟩
      | true =>
        rcases hn.shut hw with ⟨hfs, -⟩ | ⟨-, -, h0⟩
        · refine ⟨finAcked_of_serial hfs (by omega),
            finAcked_of_serial (l := t.sendBuf.length - a) ?_ (by omega)⟩
          show t.finSeq = some (serial (serial t.sndUna a) (t.sendBuf.length - a))
          rw [hfs, serial_serial, Nat.add_sub_cancel' hlena]
        · omega
    rw [hboth.1] at hfits
    rw [hboth.2]
    exact hfits
  | fin hack hs hn' hw hfin =>
    refine ⟨hlive, TcpState.not_handshake_onFinAcked hpast, ?_⟩
    have hafter : (t.ackedFin s.window).finAcked = true := by
      rw [Tcb.finAcked, show (t.ackedFin s.window).finSeq = t.finSeq from rfl, hfin]
      exact beq_iff_eq.mpr (serial_add_one _ _).symm
    rw [finAcked_of_serial hfin (by omega), hw] at hfits
    rw [hafter]
    show t.state.onFinAcked.fits t.wrClosed t.peerFin true = true
    rw [hw]
    exact TcpState.fits_onFinAcked hfits

/-- **A segment for a connection past its handshake.** -/
theorem Closes.handleEstablished {s : TcpSegment} {r : Tcb × Bool} (h : t.Closes)
    (hn : t.SeqSpace cfg n) (hlive : t.aborted = false) (hpast : t.state.handshake = false)
    (hr : t.handleEstablished cfg.recvBufCap s = .ok r) : r.1.Closes := by
  obtain ⟨u, hu, hcase⟩ := hn.onAck hcap s
  obtain ⟨hlive1, hpast1, hfits1⟩ := h.ackCase hcap hn hlive hpast hcase
  rw [handleEstablished_of_onAck hu] at hr
  cases hr
  -- the payload changes neither the state nor a fact
  obtain ⟨hlive2, hpast2, hfits2⟩ : (u.onData cfg.recvBufCap s).1.aborted = false
      ∧ (u.onData cfg.recvBufCap s).1.state.handshake = false
      ∧ (u.onData cfg.recvBufCap s).1.state.fits (u.onData cfg.recvBufCap s).1.wrClosed
        (u.onData cfg.recvBufCap s).1.peerFin (u.onData cfg.recvBufCap s).1.finAcked = true := by
    have hd := onData_case cfg.recvBufCap u s
    generalize u.onData cfg.recvBufCap s = r at hd ⊢
    cases hd <;> exact ⟨hlive1, hpast1, hfits1⟩
  generalize (u.onData cfg.recvBufCap s).1 = v at hlive2 hpast2 hfits2
  have hf := onFin_case v s
  generalize v.onFin s = r at hf ⊢
  cases hf with
  | taken hfin hopen hseq =>
    have hpast3 := TcpState.not_handshake_onPeerFin hpast2
    rw [hopen] at hfits2
    exact ⟨fun hs => absurd (hpast3.symm.trans hs) (by decide),
      fun _ _ => TcpState.fits_onPeerFin hfits2⟩
  | ignored hno =>
    exact ⟨fun hs => absurd (hpast2.symm.trans hs) (by decide), fun _ _ => hfits2⟩

theorem Closes.onSegment (h : t.Closes) (hn : t.Numbered cfg) {loc rem : SocketAddr}
    {s : TcpSegment} {r : Tcb × List TcpSegment}
    (hr : t.onSegment cfg.recvBufCap loc rem s = .ok r) : r.1.Closes := by
  unfold Tcb.onSegment at hr
  split at hr
  · cases hr
    exact Closes.abort .reset t
  · split at hr
    · rename_i hst
      split at hr
      · cases hr
        exact h.opened hn (by rw [hst]; rfl) rfl rfl rfl rfl
      · cases hr
        exact h
    · rename_i hst
      split at hr
      · split at hr
        · cases hr
          exact h
        · cases hr
          exact h.opened hn (by rw [hst]; rfl) rfl rfl rfl rfl
      · cases hr
        exact h
    · cases hr
      exact h
    · rename_i h1 h2 h3
      obtain ⟨⟨u, ack⟩, hu, hr⟩ := bind_eq_ok.mp hr
      cases hr
      have hlive : t.aborted = false := by
        cases ha : t.aborted with
        | false => rfl
        | true => exact absurd (hn.closed ha) h3
      have hpast : t.state.handshake = false := by
        revert h1 h2
        cases t.state <;> simp [TcpState.handshake]
      obtain ⟨m, hm⟩ := hn.seqSpace hlive
      exact h.handleEstablished hcap hm hlive hpast hu

/-- **Every act** but a shutdown in the handshake keeps the state in step with the facts. -/
theorem Closes.act (h : t.Closes) (hn : t.Numbered cfg) {loc rem : SocketAddr} {a : TcbAct}
    {segs : List TcpSegment} (ha : t.act cfg loc rem a = .ok (t', segs)) (hfit : a.Fits t)
    (hshut : a = .shutdown → t.state.handshake = false) : t'.Closes := by
  cases a with
  | inbound s => exact h.onSegment hcap hn ha
  | send buf =>
    cases ha
    have hcase := pollSend_case cfg.sendBufCap t buf
    generalize t.pollSend cfg.sendBufCap buf = r at hcase ⊢
    cases hcase <;> exact h.congr rfl rfl rfl rfl rfl rfl
  | shutdown =>
    cases ha
    have hpast := hshut rfl
    rcases pollShutdownWrite_case t with ⟨heq, hlive, hopen⟩ | heq
    · rw [heq]
      have hlive : t.aborted = false := abortError_eq_none.mp hlive
      obtain ⟨m, hm⟩ := hn.seqSpace hlive
      exact h.shutWrite hcap hm hlive hopen hpast
    · rw [heq]
      exact h
  | recv lens =>
    cases ha
    have hcase := pollRecvVectored_case cfg.recvBufCap t lens
    generalize t.pollRecvVectored cfg.recvBufCap lens = r at hcase ⊢
    cases hcase <;> exact h.congr rfl rfl rfl rfl rfl rfl
  | linger =>
    cases ha
    split
    · exact h
    · rename_i hw
      obtain ⟨hactive, -⟩ := hfit
      simp only [Kernel.closesActively, Bool.and_eq_true, Bool.not_eq_true'] at hactive
      have hlive : t.aborted = false := by
        rw [aborted, hactive.1.1.1, hactive.1.1.2]
        rfl
      obtain ⟨m, hm⟩ := hn.seqSpace hlive
      exact h.shutWrite hcap hm hlive (by simpa using hw) hactive.2
  | count =>
    cases ha
    obtain ⟨since, attempts, heq | heq⟩ := checkRetx_case cfg.retxThreshold cfg.retxMax t <;>
      rw [heq] <;> exact h.congr rfl rfl rfl rfl rfl rfl
  | giveUp =>
    cases ha
    exact Closes.abort .timedOut t
  | handshake =>
    obtain ⟨seg, -, ha⟩ := bind_eq_ok.mp ha
    cases ha
    exact h
  | segment mss =>
    obtain ⟨x, hx⟩ := segmentLoop_inRange.2 _ _ ha
    rw [hx]
    exact h.congr rfl rfl rfl rfl rfl rfl

end

theorem onAck_past {s : TcpSegment} (h : t.state.handshake = false) (ha : t.onAck s = .ok t') :
    t'.state.handshake = false := by
  unfold Tcb.onAck at ha
  split at ha
  · obtain ⟨u, hu, ha⟩ := bind_eq_ok.mp ha
    cases ha
    unfold takeAck at hu
    dsimp only at hu
    split at hu
    · obtain ⟨rest, -, hu⟩ := bind_eq_ok.mp hu
      cases hu
      show (if t.acksFin s.ack then t.state.onFinAcked else t.state).handshake = false
      split
      · exact TcpState.not_handshake_onFinAcked h
      · exact h
    · cases hu
      exact h
  · cases ha
    exact h

theorem onSegment_past {recvCap : Nat} {loc rem : SocketAddr} {s : TcpSegment}
    {r : Tcb × List TcpSegment} (h : t.state.handshake = false)
    (hr : t.onSegment recvCap loc rem s = .ok r) : r.1.state.handshake = false := by
  unfold Tcb.onSegment at hr
  split at hr
  · cases hr
    rfl
  · split at hr
    · rename_i hst
      rw [hst] at h
      cases h
    · rename_i hst
      rw [hst] at h
      cases h
    · cases hr
      exact h
    · obtain ⟨⟨u, ack⟩, hu, hr⟩ := bind_eq_ok.mp hr
      cases hr
      obtain ⟨v, hv, -⟩ := bind_eq_ok.mp hu
      rw [handleEstablished_of_onAck hv] at hu
      obtain ⟨rfl, -⟩ := Prod.mk.inj (Except.ok.inj hu)
      have hv' := onAck_past h hv
      have hd : (v.onData recvCap s).1.state.handshake = false := by
        have hcase := onData_case recvCap v s
        generalize v.onData recvCap s = r at hcase ⊢
        cases hcase <;> exact hv'
      show ((v.onData recvCap s).1.onFin s).1.state.handshake = false
      generalize (v.onData recvCap s).1 = w at hd
      have hcase := onFin_case w s
      generalize w.onFin s = r at hcase ⊢
      cases hcase with
      | taken => exact TcpState.not_handshake_onPeerFin hd
      | ignored => exact hd

/-- No act leads back into the handshake. -/
theorem act_past {loc rem : SocketAddr} {a : TcbAct} {segs : List TcpSegment}
    (h : t.state.handshake = false) (ha : t.act cfg loc rem a = .ok (t', segs)) :
    t'.state.handshake = false := by
  cases a with
  | inbound s => exact onSegment_past h ha
  | send buf =>
    cases ha
    have hcase := pollSend_case cfg.sendBufCap t buf
    generalize t.pollSend cfg.sendBufCap buf = r at hcase ⊢
    cases hcase <;> exact h
  | shutdown =>
    cases ha
    rcases pollShutdownWrite_case t with ⟨heq, -, -⟩ | heq <;> rw [heq]
    · exact TcpState.not_handshake_onShutdown h
    · exact h
  | recv lens =>
    cases ha
    have hcase := pollRecvVectored_case cfg.recvBufCap t lens
    generalize t.pollRecvVectored cfg.recvBufCap lens = r at hcase ⊢
    cases hcase <;> exact h
  | linger =>
    cases ha
    split
    · exact h
    · exact TcpState.not_handshake_onShutdown h
  | count =>
    cases ha
    obtain ⟨since, attempts, heq | heq⟩ := checkRetx_case cfg.retxThreshold cfg.retxMax t <;>
      rw [heq] <;> exact h
  | giveUp =>
    cases ha
    rfl
  | handshake =>
    obtain ⟨seg, -, ha⟩ := bind_eq_ok.mp ha
    cases ha
    exact h
  | segment mss =>
    obtain ⟨x, hx⟩ := segmentLoop_inRange.2 _ _ ha
    rw [hx]
    exact h

end Tcb

/-! ## 3. Every step of a kernel -/

namespace Kernel

variable {cfg : KernelConfig} {k k' : Kernel} {fd : Fd} {σ : Scope}

/-- A descriptor that was handed out to the application, or is about to be: as long as its socket
is there, it is a connection past its handshake. -/
structure Past (k : Kernel) (fd : Fd) : Prop where
  used : fd < k.sockets.nextId
  past : ∀ st, k.lookup fd = some st → ∃ c, k.conn? fd = some c ∧ c.tcb.state.handshake = false

theorem lookup_of_conn {c : Conn} (h : k.conn? fd = some c) : ∃ st, k.lookup fd = some st := by
  obtain ⟨st, hst, -⟩ := conn?_eq_some.mp h
  exact ⟨st, hst⟩

theorem Past.step (h : k.Past fd) (hs : KStep σ k k') : k'.Past fd := by
  cases hs with
  | quiet hq =>
    refine ⟨Nat.lt_of_lt_of_le h.used hq.nextId, fun st' hst' => ?_⟩
    rw [hq.conn]
    rcases hq.known fd st' hst' with ⟨st, hst⟩ | ⟨hle, -⟩
    · exact h.past st hst
    · exact absurd h.used (Nat.not_lt.mpr hle)
  | act hc ha hin hq hloc hclosed hfit =>
    rename_i g c t loc rem a segs closed
    refine ⟨by rw [emitAll_eq]; exact h.used, fun st' hst' => ?_⟩
    rw [conn?_emitAll, conn?_putTcb hc]
    split
    · rename_i hg
      subst hg
      obtain ⟨st, hst⟩ := lookup_of_conn hc
      obtain ⟨c', hc', hpast⟩ := h.past st hst
      cases hc.symm.trans hc'
      exact ⟨_, rfl, Tcb.act_past hpast ha⟩
    · rename_i hg
      rw [emitAll_eq] at hst'
      obtain ⟨st, hst, -⟩ := lookup_putTcb hc t closed hst'
      exact h.past st hst
  | connect hst ht ho hopen =>
    rename_i g st peer loc
    have hne : fd ≠ g := by
      rintro rfl
      obtain ⟨c, hc, -⟩ := h.past st hst
      obtain ⟨st', hst', ht', -⟩ := conn?_eq_some.mp hc
      cases hst.symm.trans hst'
      rw [ht] at ht'
      cases ht'
    refine ⟨Nat.lt_of_lt_of_le h.used hopen.nextId, fun st' hst' => ?_⟩
    rw [hopen.conn, if_neg hne]
    exact h.past st' (hopen.known fd st' hne hst')
  | accept hnone hin hsyn ho hid hopen =>
    have hne : fd ≠ k.sockets.nextId := Nat.ne_of_lt h.used
    refine ⟨Nat.lt_of_lt_of_le h.used hopen.nextId, fun st' hst' => ?_⟩
    rw [hopen.conn, if_neg hne]
    exact h.past st' (hopen.known fd st' hne hst')
  | remove hrm =>
    refine ⟨h.used, fun st' hst' => ?_⟩
    rw [conn?_removeSocket]
    rw [lookup_removeSocket] at hst'
    split at hst'
    · cases hst'
    · rename_i hne
      rw [if_neg hne]
      exact h.past st' hst'
  | _ => exact ⟨h.used, h.past⟩

theorem mem_ready_modify {f : Socket → Socket} (hf : ∀ st, (f st).listen = st.listen) {g c : Fd}
    (hc : c ∈ (k.modifySocket fd f).sockets.ready g) : c ∈ k.sockets.ready g := by
  obtain ⟨st', l, hst', hl, hmem⟩ := SocketTable.mem_ready.mp hc
  replace hst' : (k.modifySocket fd f).lookup g = some st' := hst'
  rw [lookup_modifySocket] at hst'
  split at hst'
  · rename_i hg
    subst hg
    obtain ⟨st, hst, rfl⟩ := Option.map_eq_some_iff.mp hst'
    exact SocketTable.mem_ready.mpr ⟨st, l, hst, (hf st).symm.trans hl, hmem⟩
  · exact SocketTable.mem_ready.mpr ⟨st', l, hst', hl, hmem⟩

/-- What a step queues is past its handshake. -/
theorem KStep.queued (hs : KStep σ k k') {g c : Fd} (hc : c ∈ k'.sockets.ready g) :
    c ∈ k.sockets.ready g ∨ ∃ x, k.conn? c = some x ∧ x.tcb.state.handshake = false := by
  cases hs with
  | quiet hq => exact hq.queued g c hc
  | act hconn =>
    rename_i h t _ _ _ _ closed _ _ _ _ _ _
    rw [emitAll_eq] at hc
    exact Or.inl (mem_ready_modify
      (f := fun st => { st with tcb := some t, fdClosed := closed }) (fun _ => rfl) hc)
  | connect hst ht ho hopen => exact Or.inl (hopen.queued g c hc)
  | accept hnone hin hsyn ho hid hopen => exact Or.inl (hopen.queued g c hc)
  | remove hrm =>
    obtain ⟨st', l, hst', hl, hmem⟩ := SocketTable.mem_ready.mp hc
    replace hst' : (k.removeSocket _).lookup g = some st' := hst'
    rw [lookup_removeSocket] at hst'
    split at hst'
    · cases hst'
    · exact Or.inl (SocketTable.mem_ready.mpr ⟨st', l, hst', hl, hmem⟩)
  | _ => exact Or.inl hc

/-- What is known of a kernel and of one of its descriptors, which the application may hold. -/
structure Watched (cfg : KernelConfig) (fd : Fd) (held : Prop) (k : Kernel) : Prop where
  cfg_eq : k.cfg = cfg
  sound : k.Sound
  numbered : k.Numbered
  /-- What waits to be accepted is past its handshake. -/
  queued : ∀ g c, c ∈ k.sockets.ready g → k.Past c
  held_past : held → k.Past fd
  closes : ∀ c, k.conn? fd = some c → c.tcb.Closes

theorem fresh_closes {state : TcpState} (hs : state.handshake = true) (peer : SocketAddr)
    (isn : UInt32) (wnd : UInt16) (rcvNxt : UInt32) :
    (Tcb.fresh state peer isn wnd rcvNxt).Closes :=
  ⟨fun _ => ⟨rfl, rfl⟩, fun _ h => absurd (hs.symm.trans h) (by decide)⟩

/-- **Every step** keeps it, where a shutdown of the descriptor is only made by who holds it. -/
theorem Watched.step (hcap : cfg.sendBufCap < 2 ^ 32 - 1) {held : Prop}
    (hw : Watched cfg fd held k) (hshut : σ.acts fd .shutdown → held) (hs : KStep σ k k') :
    Watched cfg fd held k' := by
  have hcap' : k.cfg.sendBufCap < 2 ^ 32 - 1 := by
    rw [hw.cfg_eq]
    exact hcap
  refine ⟨hs.cfg.1.trans hw.cfg_eq, hw.sound.step hs, hw.numbered.step hcap' hs, fun g c hc => ?_,
    fun hh => (hw.held_past hh).step hs, fun c hc => ?_⟩
  · rcases hs.queued hc with hc | ⟨x, hx, hpast⟩
    · exact (hw.queued g c hc).step hs
    · obtain ⟨st, hst⟩ := lookup_of_conn hx
      exact Past.step ⟨hw.sound.fresh c st hst, fun _ _ => ⟨x, hx, hpast⟩⟩ hs
  · cases hs with
    | quiet hq =>
      rw [hq.conn] at hc
      exact hw.closes c hc
    | act hconn ha hin hq hloc hclosed hfit =>
      rename_i g c1 t loc rem a segs closed
      rw [conn?_emitAll, conn?_putTcb hconn] at hc
      split at hc
      · rename_i hg
        subst hg
        cases hc
        refine (hw.closes c1 hconn).act hcap' (hw.numbered _ _ hconn) ha hfit ?_
        rintro rfl
        obtain ⟨st, hst⟩ := lookup_of_conn hconn
        obtain ⟨c2, hc2, hpast⟩ := (hw.held_past (hshut (hq nofun))).past st hst
        cases hconn.symm.trans hc2
        exact hpast
      · exact hw.closes c hc
    | connect hst ht ho hopen =>
      rw [hopen.conn] at hc
      split at hc
      · cases hc
        exact fresh_closes rfl ..
      · exact hw.closes c hc
    | accept hnone hin hsyn ho hid hopen =>
      rw [hopen.conn] at hc
      split at hc
      · cases hc
        exact fresh_closes rfl ..
      · exact hw.closes c hc
    | remove hrm =>
      rw [conn?_removeSocket] at hc
      split at hc
      · cases hc
      · exact hw.closes c hc
    | _ => exact hw.closes c hc

theorem Watched.drain {held : Prop} (hw : Watched cfg fd held k) :
    Watched cfg fd held { k with outbound := [] } :=
  ⟨hw.cfg_eq, ⟨hw.sound.fresh, hw.sound.bound, hw.sound.streams⟩, hw.numbered,
    fun g c hc => ⟨(hw.queued g c hc).used, (hw.queued g c hc).past⟩,
    fun hh => ⟨(hw.held_past hh).used, (hw.held_past hh).past⟩, hw.closes⟩

/-! ## 4. Every run of a kernel -/

/-- Is this a call that shuts or closes the descriptor? -/
def shuts (fd : Fd) : KernelOp → Bool
  | .call (.shutdown g) => g == fd
  | .call (.close g) => g == fd
  | _ => false

/-- Did this call, with this reply, give the application the descriptor of a connection? -/
def hands (fd : Fd) (k' : Kernel) : KernelOp → Reply → Bool
  | .call (.connect g _), .status (.ready (.ok ())) => g == fd && (k'.tcb? fd).isSome
  | .call (.accept _), .accepted (.ready (.ok (child, _))) => child == fd
  | _, _ => false

/-- Did the step `j` of a run give the application the descriptor? -/
def handsAt (start : Kernel) (ops : List KernelOp) (fd : Fd) (j : Nat) : Bool :=
  match ops[j]?, start.run (ops.take j) with
  | some op, .ok k =>
    match k.step op with
    | .ok (k', r, _) => hands fd k' op r
    | .error _ => false
  | _, _ => false

/-- One of the first `n` steps of a run gave the application the descriptor. -/
def HandedWithin (start : Kernel) (ops : List KernelOp) (fd : Fd) (n : Nat) : Prop :=
  ∃ j < n, handsAt start ops fd j = true

/-- A descriptor is shut down and closed only after `connect` or `accept` returned it. -/
def Handled (start : Kernel) (ops : List KernelOp) (fd : Fd) : Prop :=
  ∀ i < ops.length, ops[i]?.any (shuts fd) = true → HandedWithin start ops fd i

instance (start : Kernel) (ops : List KernelOp) (fd : Fd) (n : Nat) :
    Decidable (HandedWithin start ops fd n) :=
  inferInstanceAs (Decidable (∃ j < n, handsAt start ops fd j = true))

instance (start : Kernel) (ops : List KernelOp) (fd : Fd) : Decidable (Handled start ops fd) :=
  inferInstanceAs (Decidable (∀ i < ops.length,
    ops[i]?.any (shuts fd) = true → HandedWithin start ops fd i))

/-- A shutdown is made by the call that is named after it. -/
theorem shutdown_of_callScope {c : Syscall} (h : (callScope k k' c).acts fd .shutdown) :
    c = .shutdown fd := by
  cases c with
  | shutdown g => rw [h.1]
  | send g buf => exact absurd h.2 nofun
  | recv g len => exact absurd h.2 nofun
  | tryRecvVectored g lens => exact absurd h.2 nofun
  | close g => exact absurd h.2 nofun
  | _ => exact h.elim

/-- A call, a packet and a turn of `egress` keep what is known. -/
theorem Watched.kernelStep (hcap : cfg.sendBufCap < 2 ^ 32 - 1) {held : Prop}
    (hw : Watched cfg fd held k) {op : KernelOp} (hshut : shuts fd op = true → held) {r : Reply}
    {out : List Packet} (h : k.step op = .ok (k', r, out)) : Watched cfg fd held k' := by
  cases op with
  | call c =>
    obtain ⟨⟨k1, r1⟩, h1, h⟩ := bind_eq_ok.mp h
    cases h
    refine (syscall_steps hw.sound h1).invariant (fun _ _ hk hs => hk.step hcap (fun ha => ?_) hs) hw
    refine hshut ?_
    rw [shutdown_of_callScope ha]
    simp [shuts]
  | deliver pkt =>
    obtain ⟨k1, h1, h⟩ := bind_eq_ok.mp h
    cases h
    let σ : Scope := ⟨fun _ _ _ => True, fun _ _ => False, fun _ _ _ => True, fun _ => True⟩
    have hsteps := deliver_steps (σ := σ) (fun _ _ => trivial) (fun _ _ _ _ => trivial) h1
    have hstep : ∀ k k', Watched cfg fd held k → KStep σ k k' → Watched cfg fd held k' :=
      fun _ _ hk hs => hk.step (σ := σ) hcap (fun ha => ha.elim) hs
    exact hsteps.invariant hstep hw
  | egress fuel =>
    obtain ⟨⟨k1, out1⟩, h1, h⟩ := bind_eq_ok.mp h
    cases h
    let σ : Scope := ⟨fun _ _ _ => True, fun _ a => a.isSweep = true, fun _ _ _ => True,
      fun _ => True⟩
    have hstep : ∀ k k', Watched cfg fd held k → KStep σ k k' → Watched cfg fd held k' :=
      fun _ _ hk hs => hk.step hcap (fun ha => by cases ha) hs
    have hes := egress_steps (fun _ _ hsw _ => hsw) (fun _ _ _ _ _ => rfl) hstep
      (fun _ hk => hk.drain) (fun _ _ _ _ _ _ _ => ⟨trivial, fun _ => trivial⟩) hw h1
    exact hes.invariant hstep (fun _ hk => hk.drain) hw

/-- A poll of a stream socket that reports success looked at an established connection. -/
theorem pollConnect_past (hs : k.Sound) (hs' : k'.Sound) {peer : SocketAddr} {st' : Socket}
    {t : Tcb} (h : k.pollConnect fd peer = .ok (k', .ready (.ok ())))
    (hst' : k'.lookup fd = some st') (ht : st'.tcb = some t) : t.state.handshake = false := by
  unfold pollConnect at h
  cases hst : k.lookup fd with
  | none =>
    simp only [hst] at h
    cases h
  | some st =>
    simp only [hst] at h
    split at h
    · cases h
    · split at h
      · -- a datagram socket has no connection
        rename_i hty
        obtain ⟨⟨k1, bound⟩, h1, h⟩ := bind_eq_ok.mp h
        dsimp only at h
        cases bound with
        | error e => cases h
        | ok key =>
          cases h
          have hstream := hs'.streams fd st' hst' (by rw [ht]; rfl)
          obtain ⟨-, st1, hst1, -, hty1⟩ := ensureBound_steps (σ := .any) hs hst h1
          have hty' : st'.ty = st.ty := by
            rw [lookup_modifySocket, if_pos rfl, hst1] at hst'
            cases hst'
            exact hty1
          rw [hty', hty] at hstream
          cases hstream
      · obtain ⟨st1, hst1, h⟩ := bind_eq_ok.mp h
        cases hst.symm.trans (expect_eq_ok.mp hst1)
        split at h
        · rename_i t1 ht1
          obtain ⟨rfl, hstat⟩ := Prod.mk.inj (Except.ok.inj h)
          cases hst.symm.trans hst'
          cases ht1.symm.trans ht
          unfold connectStatus at hstat
          split at hstat
          · rename_i hs
            rw [hs]
            rfl
          · cases hstat
          · cases hstat
          · split at hstat <;> cases hstat
        · obtain ⟨⟨k1, bound⟩, h1, h⟩ := bind_eq_ok.mp h
          cases bound with
          | error e => cases h
          | ok key =>
            obtain ⟨k2, -, h⟩ := bind_eq_ok.mp h
            cases h
      · cases h

/-- What `accept` returns was queued. -/
theorem pollAccept_queued {child : Fd} {peer : SocketAddr}
    (h : k.pollAccept fd = .ok (k', .ready (.ok (child, peer)))) : child ∈ k.sockets.ready fd := by
  unfold pollAccept at h
  cases hst : k.lookup fd with
  | none =>
    simp only [hst] at h
    cases h
  | some st =>
    simp only [hst] at h
    obtain ⟨listen, hl, h⟩ := bind_eq_ok.mp h
    split at h
    · cases h
    · rename_i c rest hq
      obtain ⟨cst, -, h⟩ := bind_eq_ok.mp h
      obtain ⟨t, -, h⟩ := bind_eq_ok.mp h
      cases h
      refine SocketTable.mem_ready.mpr ⟨st, listen, hst, expect_eq_ok.mp hl, ?_⟩
      rw [hq]
      exact List.mem_cons_self

/-- What `connect` or `accept` returns is past its handshake. -/
theorem Watched.past_of_hands {held : Prop} (hw : Watched cfg fd held k) {op : KernelOp} {r : Reply}
    {out : List Packet} (hw' : Watched cfg fd held k') (h : k.step op = .ok (k', r, out))
    (hh : hands fd k' op r = true) : k'.Past fd := by
  unfold hands at hh
  split at hh
  · -- a connection that reports success is established
    rename_i g peer
    simp only [Bool.and_eq_true, beq_iff_eq] at hh
    obtain ⟨rfl, htcb⟩ := hh
    obtain ⟨⟨k1, r1⟩, h1, h⟩ := bind_eq_ok.mp h
    cases h
    obtain ⟨⟨k2, r2⟩, h2, h1⟩ := bind_eq_ok.mp h1
    cases h1
    obtain ⟨t, ht⟩ := Option.isSome_iff_exists.mp htcb
    obtain ⟨st', hst', ht'⟩ := tcb?_eq_some.mp ht
    refine ⟨hw'.sound.fresh g st' hst', fun _ _ => ⟨_, conn?_of_lookup hst' ht', ?_⟩⟩
    exact pollConnect_past hw.sound hw'.sound h2 hst' ht'
  · rename_i child peer
    obtain rfl : child = fd := by simpa using hh
    rename_i g
    obtain ⟨⟨k1, r1⟩, h1, h⟩ := bind_eq_ok.mp h
    cases h
    obtain ⟨⟨k2, r2⟩, h2, h1⟩ := bind_eq_ok.mp h1
    cases h1
    exact (hw.queued g child (pollAccept_queued h2)).step (σ := .any)
      (.quiet (pollAccept_quiet h2))
  · cases hh

theorem run_snoc (start : Kernel) (ops : List KernelOp) (op : KernelOp) :
    start.run (ops ++ [op]) = start.run ops >>= fun k => (k.step op).map Prod.fst := by
  simp only [run, List.foldlM_append, List.foldlM_cons, List.foldlM_nil, bind_pure]

theorem handsAt_snoc {start : Kernel} {ops : List KernelOp} {op : KernelOp} {j : Nat}
    (hj : j < ops.length) : handsAt start (ops ++ [op]) fd j = handsAt start ops fd j := by
  rw [handsAt, handsAt, List.getElem?_append_left hj, List.take_append_of_le_length (by omega)]

theorem HandedWithin.snoc {start : Kernel} {ops : List KernelOp} {op : KernelOp} {n : Nat}
    (hn : n ≤ ops.length) (h : HandedWithin start (ops ++ [op]) fd n) :
    HandedWithin start ops fd n := by
  obtain ⟨j, hj, hh⟩ := h
  exact ⟨j, hj, by rwa [handsAt_snoc (by omega)] at hh⟩

/-- **Every run** keeps what is known of a descriptor that is handled in order. -/
theorem run_watched (hcap : cfg.sendBufCap < 2 ^ 32 - 1) (addrs : List IpAddr) {ops : List KernelOp} :
    ∀ {k : Kernel}, (host cfg addrs).run ops = .ok k → Handled (host cfg addrs) ops fd →
      Watched cfg fd (HandedWithin (host cfg addrs) ops fd ops.length) k := by
  -- on the last step of the run
  induction ops using List.reverseRecOn with
  | nil =>
    intro k h _
    cases h
    obtain ⟨as, has⟩ := host_eq cfg addrs
    refine ⟨by rw [has]; rfl, Sound.host cfg addrs, fun fd c hc => ?_, fun g c hc => ?_,
      fun ⟨j, hj, _⟩ => absurd hj (Nat.not_lt_zero j), fun c hc => ?_⟩
    · rw [has] at hc
      cases hc
    · rw [has] at hc
      obtain ⟨st, l, hst, -⟩ := SocketTable.mem_ready.mp hc
      cases hst
    · rw [has] at hc
      cases hc
  | append_singleton ops op ih =>
    intro k h hhandled
    rw [run_snoc] at h
    obtain ⟨k1, h1, h⟩ := bind_eq_ok.mp h
    have hold : Handled (host cfg addrs) ops fd := by
      intro i hi hs
      exact (hhandled i (by simp; omega) (by rwa [List.getElem?_append_left hi])).snoc
        (Nat.le_of_lt hi)
    have hw1 := ih h1 hold
    cases hop : k1.step op with
    | error e =>
      rw [hop] at h
      cases h
    | ok r =>
      rw [hop] at h
      obtain ⟨k2, r, out⟩ := r
      cases h
      have hw2 := hw1.kernelStep hcap (fun hs => (hhandled ops.length (by simp)
        (by simpa using hs)).snoc (Nat.le_refl _)) hop
      refine { hw2 with held_past := ?_ }
      rintro ⟨j, hj, hh⟩
      rw [List.length_append, List.length_singleton] at hj
      rcases Nat.lt_or_ge j ops.length with hlt | hge
      · -- handed out before the last step
        rw [handsAt_snoc hlt] at hh
        exact hw2.held_past ⟨j, hlt, hh⟩
      · -- handed out by the last step
        obtain rfl : j = ops.length := by omega
        simp only [handsAt, List.getElem?_concat_length, List.take_left, h1, hop] at hh
        exact hw1.past_of_hands hw2 hop hh

/-- **The state of a connection is determined by three facts**, in every kernel that calls, packets
and turns of `egress` lead to: for every control block past its handshake that was not aborted, and
whose descriptor was shut down or closed only after `connect` or `accept` returned it. -/
theorem close_states (hcap : cfg.sendBufCap < 2 ^ 32 - 1) (addrs : List IpAddr)
    (ops : List KernelOp) {k : Kernel} (hrun : (host cfg addrs).run ops = .ok k) {fd : Fd}
    (hhandled : Handled (host cfg addrs) ops fd) {t : Tcb} (ht : k.tcb? fd = some t)
    (hlive : t.aborted = false) (hpast : t.state.handshake = false) : t.StateByFacts := by
  have hw := run_watched hcap addrs hrun hhandled
  obtain ⟨st, hst, htcb⟩ := tcb?_eq_some.mp ht
  exact Tcb.stateByFacts_of_fits
    ((hw.closes _ (conn?_of_lookup hst htcb)).settled hlive hpast)

/-- A server accepts a connection. -/
def acceptedOps : List KernelOp :=
  [.call (.bind ⟨.v4 0x0A000001, 80⟩ .stream), .call (.listen 1 8),
    .deliver ⟨.v4 0x0A000002, .v4 0x0A000001, 64,
      .tcp ⟨1000, 80, 5, 0, { syn := true }, 100, []⟩⟩,
    .deliver ⟨.v4 0x0A000002, .v4 0x0A000001, 64,
      .tcp ⟨1000, 80, 6, 0x01000001, { ack := true }, 100, []⟩⟩,
    .call (.accept 1)]

/-- It sends three bytes and its FIN, and the peer's FIN crosses them. -/
def crossingOps : List KernelOp :=
  acceptedOps ++ [.call (.send 2 [1, 2, 3]), .call (.shutdown 2), .egress 3,
    .deliver ⟨.v4 0x0A000002, .v4 0x0A000001, 64,
      .tcp ⟨1000, 80, 6, 0x01000004, { ack := true, fin := true }, 100, []⟩⟩]

theorem close_states_crossing :
    ∃ k t, (host .default [.v4 0x0A000001]).run crossingOps = .ok k ∧ k.tcb? 2 = some t
      ∧ Handled (host .default [.v4 0x0A000001]) crossingOps 2 ∧ t.state = .closing
      ∧ t.StateByFacts := by
  have hrun : (((host .default [.v4 0x0A000001]).run crossingOps).toOption.bind (·.tcb? 2)).map
      (fun t => (t.state, t.aborted)) = some (.closing, false) := by decide +kernel
  have hhandled : Handled (host .default [.v4 0x0A000001]) crossingOps 2 := by decide +kernel
  obtain ⟨t, ht, heq⟩ := Option.map_eq_some_iff.mp hrun
  obtain ⟨k, hk, ht⟩ := Option.bind_eq_some_iff.mp ht
  obtain ⟨hstate, hlive⟩ := Prod.mk.inj heq
  have hok := toOption_eq_some.mp hk
  exact ⟨k, t, hok, ht, hhandled, hstate,
    close_states (by decide) _ crossingOps hok hhandled ht hlive (by rw [hstate]; rfl)⟩

/-- A send that fills the buffer of an idle connection, and a shutdown. -/
theorem fill_and_shut {st : Socket} {t : Tcb} {buf : List UInt8} (hst : k.lookup fd = some st)
    (hty : st.ty = .stream) (ht : st.tcb = some t) (hlive : t.abortError = none)
    (hopen : t.wrClosed = false) (hstate : t.state = .established) (hbuf : t.sendBuf = [])
    (hcap : k.cfg.sendBufCap = buf.length) (hpos : 0 < buf.length) :
    ∃ k1 k2, (k.step (.call (.send fd buf))).map Prod.fst = .ok k1
      ∧ (k1.step (.call (.shutdown fd))).map Prod.fst = .ok k2
      ∧ k2.tcb? fd = some ({ t with sendBuf := buf } : Tcb).shutWrite := by
  have hsend : t.pollSend k.cfg.sendBufCap buf
      = ({ t with sendBuf := buf }, .ready (.ok buf.length)) := by
    simp [Tcb.pollSend, hlive, hopen, hstate, hbuf, hcap, Nat.ne_of_gt hpos]
  have hl1 : (k.setTcb fd { t with sendBuf := buf }).lookup fd
      = some { st with tcb := some { t with sendBuf := buf } } := by
    rw [setTcb, lookup_modifySocket, if_pos rfl, hst]
    rfl
  have hshut : ({ t with sendBuf := buf } : Tcb).pollShutdownWrite
      = (({ t with sendBuf := buf } : Tcb).shutWrite, .ready (.ok ())) :=
    Tcb.pollShutdownWrite_of_open hlive hopen
  refine ⟨k.setTcb fd { t with sendBuf := buf },
    (k.setTcb fd { t with sendBuf := buf }).setTcb fd ({ t with sendBuf := buf } : Tcb).shutWrite,
    ?_, ?_, ?_⟩
  · have hcall : k.pollSend fd buf
        = .ok (k.setTcb fd { t with sendBuf := buf }, .ready (.ok buf.length)) := by
      simp only [pollSend, hst, hty, tcpPollSend, ht, hsend]
      rfl
    simp only [step, syscall, hcall]
    rfl
  · have hcall : (k.setTcb fd { t with sendBuf := buf }).pollShutdownWrite fd
        = .ok ((k.setTcb fd { t with sendBuf := buf }).setTcb fd
          ({ t with sendBuf := buf } : Tcb).shutWrite, .ready (.ok ())) := by
      simp only [pollShutdownWrite, hl1, hty, tcpPollShutdownWrite, hshut]
      rfl
    simp only [step, syscall, hcall]
    rfl
  · refine tcb?_eq_some.mpr
      ⟨{ st with tcb := some ({ t with sendBuf := buf } : Tcb).shutWrite }, ?_, rfl⟩
    rw [setTcb, lookup_modifySocket, if_pos rfl, hl1]
    rfl

/-- The application fills a buffer of 2^32 - 1 bytes and shuts its side of the connection. -/
def fullOps : List KernelOp :=
  acceptedOps ++ [.call (.send 2 (List.replicate (2 ^ 32 - 1) 0))] ++ [.call (.shutdown 2)]

/-- The descriptor is shut once, after `accept` returned it. -/
theorem fullOps_handled (start : Kernel) (h : handsAt start acceptedOps 2 4 = true) :
    Handled start fullOps 2 := by
  intro i hi hs
  refine ⟨4, ?_, ?_⟩
  · match i with
    | 0 | 1 | 2 | 3 | 4 => cases hs
    | n + 5 => omega
  · rw [fullOps, handsAt_snoc (by decide), handsAt_snoc (by decide)]
    exact h

/-- **A full buffer of 2^32 - 1 bytes** puts the FIN at the last number before the first byte: the
number after it is the oldest unacknowledged one, although nothing was acknowledged. -/
theorem close_states_full_buffer :
    ∃ cfg addrs k t, (host cfg addrs).run fullOps = .ok k ∧ Handled (host cfg addrs) fullOps 2
      ∧ k.tcb? 2 = some t ∧ t.aborted = false ∧ t.state.handshake = false
      ∧ ¬ t.StateByFacts := by
  let cfg : KernelConfig := { KernelConfig.default with sendBufCap := 2 ^ 32 - 1 }
  let start := host cfg [.v4 0x0A000001]
  have hrun : ((start.run acceptedOps).toOption.bind fun k => (k.lookup 2).bind fun st =>
      st.tcb.map fun t => ((k.cfg.sendBufCap, st.ty, t.state), t.sendBuf, t.wrClosed, t.aborted))
        = some ((2 ^ 32 - 1, .stream, .established), [], false, false) := by
    decide +kernel
  obtain ⟨k, hk, hrun⟩ := Option.bind_eq_some_iff.mp hrun
  obtain ⟨st, hst, hrun⟩ := Option.bind_eq_some_iff.mp hrun
  obtain ⟨t, ht, hrun⟩ := Option.map_eq_some_iff.mp hrun
  simp only [Prod.mk.injEq] at hrun
  obtain ⟨⟨hcfg, hty, hstate⟩, hbuf, hopen, hab⟩ := hrun
  obtain ⟨k1, k2, h1, h2, ht2⟩ := fill_and_shut hst hty ht (Tcb.abortError_eq_none.mpr hab) hopen
    hstate hbuf
    (show k.cfg.sendBufCap = (List.replicate (2 ^ 32 - 1) (0 : UInt8)).length by
      rw [hcfg, List.length_replicate]) (by rw [List.length_replicate]; decide)
  refine ⟨cfg, [.v4 0x0A000001], k2, _, ?_, fullOps_handled _ (by decide +kernel), ht2, ?_, ?_, ?_⟩
  · rw [fullOps, run_snoc, run_snoc, toOption_eq_some.mp hk]
    exact bind_eq_ok.mpr ⟨k1, h1, h2⟩
  · exact hab
  · show t.state.onShutdown.handshake = false
    rw [hstate]
    rfl
  · intro hfacts
    have hs : ({ t with sendBuf := List.replicate (2 ^ 32 - 1) 0 } : Tcb).shutWrite.state
        = .finWait1 := by
      show t.state.onShutdown = .finWait1
      rw [hstate]
      rfl
    have hacked := (hfacts.finWait1.mp hs).2.2
    rw [Tcb.finAcked] at hacked
    simp only [Tcb.shutWrite, List.length_replicate, beq_eq_false_iff_ne] at hacked
    apply hacked
    rw [UInt32.add_assoc]
    exact (UInt32.add_zero _).symm

end Kernel

end Turmoil.Net
