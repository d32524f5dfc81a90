/-
# Advertised windows

Every segment of a connection but a RST tells the peer how much it may send.  Six places of
`kernel/tcp.rs` fill in that field.  Four take it from the receive buffer; the SYN and the SYN-ACK,
and their retransmissions, carry the constant `DEFAULT_WINDOW`.

A `Chronicle` is a run together with what one socket has sent in it, and how many sequence numbers
it had taken in by then; every run has one (`run_chronicle`).  The right edge of a segment is the
number of the first byte the peer must not send, counted from the beginning of the connection.  If
the constant is no lie, the edges of all acknowledgements so far lie at or below the one that a
segment sent now would have, because the buffer fills by no more than what is taken in
(`Tcb.Spoken.edge`); so they never move left, and what lies below any of them fits the buffer.

If the receive buffer is smaller than the constant, the first segment of every connection
promises room that is not there.  `windows_honest_iff` says that this is the only exception.
-/
import Turmoil.Net.CloseStates

namespace Turmoil.Net

/-! ## 1. What an act sends, and what it takes in -/

/-- The window is what is left of the buffer, as far as the field goes. -/
theorem advertisedWindow_toNat (cap len : Nat) :
    (advertisedWindow cap len).toNat = min (cap - len) 65535 := by
  unfold advertisedWindow
  rw [UInt16.toNat_ofNat']
  exact Nat.mod_eq_of_lt (by omega)

namespace Tcb

variable {cfg : KernelConfig} {t t' : Tcb} {segs : List TcpSegment} {loc rem : SocketAddr}

/-- The sequence numbers that were taken in when `t` became `t'`. -/
def taken (t t' : Tcb) : Nat :=
  (t'.recvBuf.length - t.recvBuf.length) + if t'.peerFin && !t.peerFin then 1 else 0

/-- The window this control block would advertise. -/
def room (cfg : KernelConfig) (t : Tcb) : Nat := min (cfg.recvBufCap - t.recvBuf.length) 65535

/-- What is known of the receiving side of any control block. -/
structure Buffers (cfg : KernelConfig) (t : Tcb) : Prop where
  fits : t.recvBuf.length ≤ cfg.recvBufCap
  early : t.state.handshake = true → t.recvBuf = [] ∧ t.peerFin = false

/-- What is known of an act that makes `t'` of `t` and sends `segs`. -/
structure Spoken (cfg : KernelConfig) (t t' : Tcb) (segs : List TcpSegment) : Prop where
  buffers : t'.Buffers cfg
  handshake : t'.state.handshake = true → t'.state = t.state
  nothing : t.state.handshake = true → taken t t' = 0
  window : ∀ seg ∈ segs, seg.window.toNat = t'.room cfg
  ack : ∀ seg ∈ segs, seg.flags.ack = true → seg.ack = t'.rcvNxt
  waiting : t'.state = .synSent → ∀ seg ∈ segs, seg.flags.ack = false
  number : t.state ≠ .synSent → t'.rcvNxt = t.rcvNxt + UInt32.ofNat (taken t t')
  edge : t.room cfg ≤ taken t t' + t'.room cfg

theorem taken_of_le (h : t'.recvBuf.length ≤ t.recvBuf.length) (hfin : t'.peerFin = t.peerFin) :
    taken t t' = 0 := by
  unfold taken
  rw [hfin, Nat.sub_eq_zero_of_le h]
  cases t.peerFin <;> rfl

theorem room_le (h : t'.recvBuf.length ≤ t.recvBuf.length) : t.room cfg ≤ t'.room cfg := by
  unfold room
  omega

/-- An act that takes nothing in, and leaves no less room. -/
theorem Spoken.of_le (hb : t.Buffers cfg) (hle : t'.recvBuf.length ≤ t.recvBuf.length)
    (hfin : t'.peerFin = t.peerFin) (hnxt : t'.rcvNxt = t.rcvNxt)
    (hstate : t'.state.handshake = true → t'.state = t.state)
    (hwindow : ∀ seg ∈ segs, seg.window.toNat = t'.room cfg)
    (hack : ∀ seg ∈ segs, seg.flags.ack = true → seg.ack = t'.rcvNxt)
    (hwaiting : t'.state = .synSent → ∀ seg ∈ segs, seg.flags.ack = false) :
    Spoken cfg t t' segs where
  buffers := by
    refine ⟨Nat.le_trans hle hb.fits, fun hs => ?_⟩
    obtain ⟨hnil, hopen⟩ := hb.early (hstate hs ▸ hs)
    rw [hnil] at hle
    exact ⟨List.eq_nil_of_length_eq_zero (Nat.le_zero.mp hle), hfin.trans hopen⟩
  handshake := hstate
  nothing := fun _ => taken_of_le hle hfin
  window := hwindow
  ack := hack
  waiting := hwaiting
  number := fun _ => by
    rw [taken_of_le hle hfin, hnxt]
    exact (UInt32.add_zero _).symm
  edge := by
    rw [taken_of_le hle hfin, Nat.zero_add]
    exact room_le hle

/-- An act that leaves the receiving side alone and sends nothing. -/
theorem Spoken.silent (hb : t.Buffers cfg) (hbuf : t'.recvBuf = t.recvBuf)
    (hfin : t'.peerFin = t.peerFin) (hnxt : t'.rcvNxt = t.rcvNxt)
    (hstate : t'.state.handshake = true → t'.state = t.state) : Spoken cfg t t' [] :=
  .of_le hb (Nat.le_of_eq (congrArg List.length hbuf)) hfin hnxt hstate (List.forall_mem_nil _) (List.forall_mem_nil _)
    fun _ => List.forall_mem_nil _

/-- Ending the connection clears the buffer. -/
theorem Spoken.abort (hb : t.Buffers cfg) (reason : AbortReason) :
    Spoken cfg t (t.abort reason) [] :=
  .of_le hb (Nat.zero_le _) rfl rfl (fun hs => by cases hs) (List.forall_mem_nil _)
    (List.forall_mem_nil _) fun _ => List.forall_mem_nil _

theorem onShutdown_handshake {s : TcpState} (h : s.onShutdown.handshake = true) :
    s.onShutdown = s := by
  cases s <;> first | rfl | cases h

theorem onAck_receiver {s : TcpSegment} (h : t.onAck s = .ok t') :
    t'.recvBuf = t.recvBuf ∧ t'.rcvNxt = t.rcvNxt ∧ t'.peerFin = t.peerFin := by
  unfold Tcb.onAck at h
  split at h
  · obtain ⟨u, hu, h⟩ := bind_eq_ok.mp h
    cases h
    unfold takeAck at hu
    dsimp only at hu
    split at hu
    · obtain ⟨rest, -, hu⟩ := bind_eq_ok.mp hu
      cases hu
      exact ⟨rfl, rfl, rfl⟩
    · cases hu
      exact ⟨rfl, rfl, rfl⟩
  · cases h
    exact ⟨rfl, rfl, rfl⟩

/-- The payload and the FIN: what is taken in, and whether an acknowledgement is due. -/
structure Took (cap : Nat) (t t' : Tcb) (sendAck : Bool) : Prop where
  fits : t.recvBuf.length ≤ cap → t'.recvBuf.length ≤ cap
  number : t'.rcvNxt = t.rcvNxt + UInt32.ofNat (taken t t')
  length : t'.recvBuf.length ≤ t.recvBuf.length + taken t t'
  silent : sendAck = false → t' = t

theorem onData_took (cap : Nat) (t : Tcb) (s : TcpSegment) :
    Took cap t (t.onData cap s).1 (t.onData cap s).2
      ∧ (t.onData cap s).1.peerFin = t.peerFin
      ∧ t.recvBuf.length ≤ (t.onData cap s).1.recvBuf.length := by
  have hcase := onData_case cap t s
  generalize t.onData cap s = r at hcase ⊢
  cases hcase with
  | taken m hm hpos hseq hopen =>
    have hlen : (t.recvBuf ++ s.payload.take m).length = t.recvBuf.length + m := by
      rw [List.length_append, List.length_take]
      omega
    have htaken : taken t { t with
        recvBuf := t.recvBuf ++ s.payload.take m
        rcvNxt := t.rcvNxt + UInt32.ofNat m } = m := by
      unfold taken
      dsimp only
      rw [hlen, Nat.add_sub_cancel_left]
      cases t.peerFin <;> rfl
    refine ⟨⟨fun _ => ?_, ?_, ?_, nofun⟩, rfl, ?_⟩
    · dsimp only
      omega
    · rw [htaken]
    · rw [htaken]
      exact Nat.le_of_eq hlen
    · dsimp only
      omega
  | ignored =>
    have hzero : taken t t = 0 := taken_of_le (Nat.le_refl _) rfl
    refine ⟨⟨id, ?_, Nat.le_add_right _ _, fun _ => rfl⟩, rfl, Nat.le_refl _⟩
    rw [hzero]
    exact (UInt32.add_zero _).symm

/-- Payload and FIN of one segment. -/
theorem onData_onFin_took (cap : Nat) (t : Tcb) (s : TcpSegment) :
    Took cap t ((t.onData cap s).1.onFin s).1
      ((t.onData cap s).2 || ((t.onData cap s).1.onFin s).2) := by
  obtain ⟨hdata, hopen, hgrow⟩ := onData_took cap t s
  generalize t.onData cap s = r at hdata hopen hgrow ⊢
  obtain ⟨u, gotData⟩ := r
  have hcase := onFin_case u s
  generalize u.onFin s = q at hcase ⊢
  cases hcase with
  | taken hfin hpeer hseq =>
    have htaken : taken t { u with
        peerFin := true
        rcvNxt := u.rcvNxt + 1
        state := u.state.onPeerFin } = taken t u + 1 := by
      unfold taken
      rw [hopen, show t.peerFin = false from hopen.symm.trans hpeer]
      rfl
    refine ⟨hdata.fits, ?_, ?_, fun hnone => ?_⟩
    · rw [htaken]
      show u.rcvNxt + 1 = _
      rw [hdata.number, UInt32.ofNat_add, UInt32.add_assoc]
      rfl
    · rw [htaken]
      exact Nat.le_succ_of_le hdata.length
    · rw [Bool.or_true] at hnone
      cases hnone
  | ignored =>
    refine ⟨hdata.fits, hdata.number, hdata.length, fun hnone => ?_⟩
    exact hdata.silent (by simpa using hnone)

/-- **Data, FIN and acknowledgements** past the handshake. -/
theorem Spoken.handleEstablished {s : TcpSegment} {sendAck : Bool} (hb : t.Buffers cfg)
    (hpast : t.state.handshake = false) (hpast' : t'.state.handshake = false)
    (h : t.handleEstablished cfg.recvBufCap s = .ok (t', sendAck)) :
    Spoken cfg t t' (if sendAck then [t'.ackSegment cfg.recvBufCap loc rem] else []) := by
  obtain ⟨u, hu, -⟩ := bind_eq_ok.mp h
  rw [handleEstablished_of_onAck hu] at h
  obtain ⟨h1, h2⟩ := Prod.mk.inj (Except.ok.inj h)
  obtain ⟨hbuf, hnxt, hfin⟩ := onAck_receiver hu
  have htook := onData_onFin_took cfg.recvBufCap u s
  rw [h1, h2] at htook
  have htaken : taken t t' = taken u t' := by
    unfold taken
    rw [hbuf, hfin]
  have hsegs : ∀ seg ∈ (if sendAck then [t'.ackSegment cfg.recvBufCap loc rem] else []),
      seg = t'.ackSegment cfg.recvBufCap loc rem := by
    intro seg hseg
    split at hseg
    · exact List.mem_singleton.mp hseg
    · cases hseg
  refine ⟨⟨htook.fits (hbuf ▸ hb.fits), fun hs => ?_⟩, fun hs => ?_, fun hs => ?_, fun seg hseg => ?_,
    fun seg hseg _ => ?_, fun hs => ?_, fun _ => ?_, ?_⟩
  · cases hpast'.symm.trans hs
  · cases hpast'.symm.trans hs
  · cases hpast.symm.trans hs
  · rw [hsegs seg hseg]
    exact advertisedWindow_toNat _ _
  · rw [hsegs seg hseg]
    rfl
  · rw [hs] at hpast'
    cases hpast'
  · rw [htook.number, hnxt, htaken]
  · have hlen := htook.length
    rw [← htaken, hbuf] at hlen
    unfold room
    omega

/-- Every segment of the loop of `segment_one` speaks for the receiving side as it is. -/
theorem segmentLoop_speaks {recvCap mss : Nat} : ∀ {fuel : Nat} {t t' : Tcb}
    {segs : List TcpSegment}, t.segmentLoop recvCap mss loc fuel = .ok (t', segs) →
    ∀ seg ∈ segs, seg.window = advertisedWindow recvCap t.recvBuf.length ∧ seg.ack = t.rcvNxt := by
  intro fuel
  induction fuel with
  | zero =>
    intro t t' segs h
    cases h
  | succ fuel ih =>
    intro t t' segs h
    obtain ⟨r, hstep, h⟩ := bind_eq_ok.mp h
    cases r with
    | none =>
      cases h
      exact List.forall_mem_nil _
    | some r =>
      obtain ⟨u, seg⟩ := r
      obtain ⟨⟨v, rest⟩, hrest, h⟩ := bind_eq_ok.mp h
      cases h
      -- a turn moves only `snd_nxt`
      have hturn : (u.recvBuf = t.recvBuf ∧ u.rcvNxt = t.rcvNxt)
          ∧ seg.window = advertisedWindow recvCap t.recvBuf.length ∧ seg.ack = t.rcvNxt := by
        unfold segmentStep at hstep
        dsimp only at hstep
        split at hstep
        · obtain ⟨payload, -, hstep⟩ := bind_eq_ok.mp hstep
          cases hstep
          exact ⟨⟨rfl, rfl⟩, rfl, rfl⟩
        · split at hstep
          · cases hstep
            exact ⟨⟨rfl, rfl⟩, rfl, rfl⟩
          · cases hstep
      have hall := ih hrest
      rw [hturn.1.1, hturn.1.2] at hall
      exact List.forall_mem_cons.mpr ⟨hturn.2, hall⟩

/-- A segment of the handshake promises the constant, and the buffer is empty. -/
theorem Spoken.handshake_segment (hcap : 65535 ≤ cfg.recvBufCap) (hb : t.Buffers cfg)
    {seg : TcpSegment} (h : t.handshakeSegment loc = .ok seg) : Spoken cfg t t [seg] := by
  have hroom : t.state.handshake = true → t.room cfg = 65535 := by
    intro hs
    unfold room
    rw [(hb.early hs).1]
    exact Nat.min_eq_right hcap
  unfold handshakeSegment at h
  split at h
  · rename_i hs
    cases h
    refine .of_le hb (Nat.le_refl _) rfl rfl (fun _ => rfl) (List.forall_mem_singleton.mpr ?_)
      (List.forall_mem_singleton.mpr nofun) fun _ => List.forall_mem_singleton.mpr rfl
    rw [hroom (by rw [hs]; rfl)]
    rfl
  · rename_i hs
    cases h
    refine .of_le hb (Nat.le_refl _) rfl rfl (fun _ => rfl) (List.forall_mem_singleton.mpr ?_)
      (List.forall_mem_singleton.mpr fun _ => rfl) fun hs' => ?_
    · rw [hroom (by rw [hs]; rfl)]
      rfl
    · rw [hs] at hs'
      cases hs'
  · cases h

/-- **An inbound segment.** -/
theorem Spoken.onSegment {s : TcpSegment} (hb : t.Buffers cfg)
    (h : t.onSegment cfg.recvBufCap loc rem s = .ok (t', segs)) : Spoken cfg t t' segs := by
  have hbefore := h
  unfold Tcb.onSegment at h
  split at h
  · cases h
    exact .abort hb .reset
  · split at h
    · rename_i hs
      obtain ⟨hnil, hopen⟩ := hb.early (by rw [hs]; rfl)
      split at h
      · cases h
        have hzero : taken t (t.onSynAck s) = 0 := taken_of_le (Nat.le_refl _) rfl
        refine ⟨⟨hb.fits, nofun⟩, nofun, fun _ => hzero, List.forall_mem_singleton.mpr ?_,
          List.forall_mem_singleton.mpr fun _ => rfl, nofun, fun hne => absurd hs hne, ?_⟩
        · show (advertisedWindow cfg.recvBufCap 0).toNat = room cfg t
          rw [advertisedWindow_toNat, room, hnil]
          rfl
        · rw [hzero, Nat.zero_add]
          exact Nat.le_refl _
      · cases h
        exact .silent hb rfl rfl rfl fun _ => rfl
    · split at h
      · split at h
        · cases h
          exact .silent hb rfl rfl rfl fun _ => rfl
        · cases h
          exact .silent hb rfl rfl rfl nofun
      · cases h
        exact .silent hb rfl rfl rfl fun _ => rfl
    · cases h
      exact .silent hb rfl rfl rfl fun _ => rfl
    · rename_i hs1 hs2 hs3
      obtain ⟨⟨u, sendAck⟩, hu, h⟩ := bind_eq_ok.mp h
      cases h
      have hpast : t.state.handshake = false := by
        cases hst : t.state <;> first | rfl | exact absurd hst ‹_›
      exact .handleEstablished hb hpast (onSegment_past hpast hbefore) hu

/-- **Every act** speaks for the receiving side as it leaves it. -/
theorem Spoken.act (hcap : 65535 ≤ cfg.recvBufCap) (hb : t.Buffers cfg) {a : TcbAct}
    (hfit : a.Fits t) (h : t.act cfg loc rem a = .ok (t', segs)) : Spoken cfg t t' segs := by
  cases a with
  | inbound s => exact .onSegment hb h
  | send buf =>
    cases h
    have hcase := pollSend_case cfg.sendBufCap t buf
    generalize t.pollSend cfg.sendBufCap buf = r at hcase ⊢
    cases hcase <;> exact .silent hb rfl rfl rfl fun _ => rfl
  | shutdown =>
    cases h
    rcases pollShutdownWrite_case t with ⟨heq, -, -⟩ | heq <;> rw [heq]
    · exact .silent hb rfl rfl rfl onShutdown_handshake
    · exact .silent hb rfl rfl rfl fun _ => rfl
  | recv lens =>
    cases h
    have hcase := pollRecvVectored_case cfg.recvBufCap t lens
    generalize t.pollRecvVectored cfg.recvBufCap lens = r at hcase ⊢
    cases hcase with
    | read out rest hsplit hout hlive hne =>
      have hlen : rest.length ≤ t.recvBuf.length := by
        rw [← hsplit, List.length_append]
        omega
      have hsegs : ∀ seg ∈ (if decide (out.length ≥ cfg.recvBufCap / 2) = true then
          [({ t with recvBuf := rest } : Tcb).ackSegment cfg.recvBufCap loc rem] else []),
          seg = ({ t with recvBuf := rest } : Tcb).ackSegment cfg.recvBufCap loc rem := by
        intro seg hseg
        split at hseg
        · exact List.mem_singleton.mp hseg
        · cases hseg
      refine .of_le hb hlen rfl rfl (fun _ => rfl) (fun seg hseg => ?_) (fun seg hseg _ => ?_)
        fun hs => absurd ((hb.early (by rw [hs]; rfl)).1) hne
      · rw [hsegs seg hseg]
        exact advertisedWindow_toNat _ _
      · rw [hsegs seg hseg]
        rfl
    | eof => exact .silent hb rfl rfl rfl fun _ => rfl
    | refused => exact .silent hb rfl rfl rfl fun _ => rfl
  | linger =>
    cases h
    split
    · exact .silent hb rfl rfl rfl fun _ => rfl
    · exact .silent hb rfl rfl rfl onShutdown_handshake
  | count =>
    cases h
    obtain ⟨since, attempts, heq | heq⟩ := checkRetx_case cfg.retxThreshold cfg.retxMax t <;>
      rw [heq] <;> exact .silent hb rfl rfl rfl fun _ => rfl
  | giveUp =>
    cases h
    exact .abort hb .timedOut
  | handshake =>
    obtain ⟨seg, hseg, h⟩ := bind_eq_ok.mp h
    cases h
    exact .handshake_segment hcap hb hseg
  | segment mss =>
    obtain ⟨x, rfl⟩ := segmentLoop_inRange.2 _ _ h
    have hall := segmentLoop_speaks h
    refine .of_le hb (Nat.le_refl _) rfl rfl (fun _ => rfl) (fun seg hseg => ?_)
      (fun seg hseg _ => (hall seg hseg).2) fun hs => ?_
    · rw [(hall seg hseg).1]
      exact advertisedWindow_toNat _ _
    · have hstate : t.state.carriesData = true := (Bool.and_eq_true_iff.mp hfit).1
      rw [show t.state = .synSent from hs] at hstate
      cases hstate

end Tcb

/-! ## 2. What a socket has sent -/

/-- A segment that was sent, how full the receive buffer was, and how many sequence numbers had
been taken in. -/
structure Said where
  seg : TcpSegment
  buffered : Nat
  taken : Nat

namespace Said

/-- The right edge, counted from the first byte of the peer. -/
def edge (e : Said) : Nat := e.taken + e.seg.window.toNat

/-- The segments that carry an acknowledgement. -/
def acks (log : List Said) : List Said := log.filter (·.seg.flags.ack)

theorem acks_append (log more : List Said) : acks (log ++ more) = acks log ++ acks more :=
  List.filter_append ..

theorem mem_acks {e : Said} {log : List Said} : e ∈ acks log ↔ e ∈ log ∧ e.seg.flags.ack = true :=
  List.mem_filter

end Said

namespace Kernel

variable {cfg : KernelConfig} {addrs : List IpAddr} {k k' : Kernel} {fd : Fd} {log : List Said}
  {n : Nat}

/-- What goes on in a kernel without the socket `fd`. -/
def without (fd : Fd) (k : Kernel) : Scope where
  arrives l r _ := k.sockets.findConnection l r ≠ some fd
  acts g _ := g ≠ fd
  opens _ _ g := g ≠ fd
  removes _ := True

/-- A run, what the socket `fd` has sent in it, and how many sequence numbers it has taken in. -/
inductive Chronicle (cfg : KernelConfig) (addrs : List IpAddr) (fd : Fd) :
    Kernel → List Said → Nat → Prop
  | start : Chronicle cfg addrs fd (host cfg addrs) [] 0
  | aside {k k' : Kernel} {log : List Said} {n : Nat} (h : Chronicle cfg addrs fd k log n)
      (hs : KStep (without fd k) k k') : Chronicle cfg addrs fd k' log n
  | drain {k : Kernel} {log : List Said} {n : Nat} (h : Chronicle cfg addrs fd k log n) :
      Chronicle cfg addrs fd { k with outbound := [] } log n
  | connect {k k' : Kernel} {log : List Said} {n : Nat} {st : Socket} {peer loc : SocketAddr}
      {seg : TcpSegment} (h : Chronicle cfg addrs fd k log n) (hst : k.lookup fd = some st)
      (ht : st.tcb = none)
      (hseg : seg = ⟨loc.port, peer.port, k.tcpIsn, 0, { syn := true }, defaultWindow, []⟩)
      (hopen : Opened k k' fd
        ⟨st.bound, Tcb.fresh .synSent peer k.tcpIsn defaultWindow 0, st.fdClosed⟩ loc seg) :
      Chronicle cfg addrs fd k' (log ++ [⟨seg, 0, n⟩]) n
  | accept {k k' : Kernel} {log : List Said} {n : Nat} {key : BindKey} {loc rem : SocketAddr}
      {s seg : TcpSegment} (h : Chronicle cfg addrs fd k log n) (hfd : fd = k.sockets.nextId)
      (hnone : k.sockets.findConnection loc rem = none)
      (hsyn : s.flags.syn = true ∧ s.flags.ack = false)
      (hid : k'.sockets.nextId = k.sockets.nextId + 1)
      (hseg : seg = ⟨loc.port, rem.port, k.tcpIsn, s.seq + 1, { syn := true, ack := true },
        defaultWindow, []⟩)
      (hopen : Opened k k' fd
        ⟨some key, Tcb.fresh .synReceived rem k.tcpIsn s.window (s.seq + 1), false⟩ loc seg) :
      Chronicle cfg addrs fd k' (log ++ [⟨seg, 0, n⟩]) n
  | act {k : Kernel} {log : List Said} {n : Nat} {c : Conn} {t : Tcb} {loc rem : SocketAddr}
      {a : TcbAct} {segs : List TcpSegment} {fdClosed : Bool} (h : Chronicle cfg addrs fd k log n)
      (hc : k.conn? fd = some c) (ha : c.tcb.act k.cfg loc rem a = .ok (t, segs))
      (hin : ∀ s, a = .inbound s → k.sockets.findConnection loc rem = some fd)
      (hloc : segs ≠ [] → (∀ s, a ≠ .inbound s) → c.loc? = some loc ∧ c.tcb.peer = rem)
      (hclosed : fdClosed = c.fdClosed ∨ a = .linger) (hfit : a.Fits c.tcb) :
      Chronicle cfg addrs fd ((k.putTcb fd t fdClosed).emitAll loc rem segs)
        (log ++ segs.map fun seg => ⟨seg, t.recvBuf.length, n + c.tcb.taken t⟩) (n + c.tcb.taken t)

/-- A step is one of the socket, or goes on without it. -/
theorem Chronicle.step (h : Chronicle cfg addrs fd k log n) (hs : KStep .any k k') :
    ∃ log n, Chronicle cfg addrs fd k' log n := by
  cases hs with
  | quiet hq => exact ⟨_, _, h.aside (.quiet hq)⟩
  | act hc ha hin hq hloc hclosed hfit =>
    rename_i g c t loc rem a segs closed
    by_cases hg : g = fd
    · subst hg
      exact ⟨_, _, h.act hc ha (fun s hs => (hin s hs).1) hloc hclosed hfit⟩
    · refine ⟨_, _, h.aside (.act hc ha (fun s hs => ?_) (fun _ => hg) hloc hclosed hfit)⟩
      refine ⟨(hin s hs).1, fun heq => hg ?_⟩
      exact Option.some.inj ((hin s hs).1.symm.trans heq)
  | connect hst ht ho hopen =>
    rename_i g st peer loc
    by_cases hg : g = fd
    · subst hg
      exact ⟨_, _, h.connect hst ht rfl hopen⟩
    · exact ⟨_, _, h.aside (.connect hst ht hg hopen)⟩
  | accept hnone hin hsyn ho hid hopen =>
    by_cases hg : k.sockets.nextId = fd
    · rw [hg] at hopen
      exact ⟨_, _, h.accept hg.symm hnone hsyn hid rfl hopen⟩
    · have hne := ne_of_eq_of_ne hnone (Option.some_ne_none fd).symm
      exact ⟨_, _, h.aside (.accept hnone hne hsyn hg hid hopen)⟩
  | reject s hnone hin =>
    have hne := ne_of_eq_of_ne hnone (Option.some_ne_none fd).symm
    exact ⟨_, _, h.aside (.reject s hnone hne)⟩
  | reset hc hloc hrm => exact ⟨_, _, h.aside (.reset hc hloc trivial)⟩
  | remove hrm => exact ⟨_, _, h.aside (.remove (Or.inl trivial))⟩
  | datagram src dst d => exact ⟨_, _, h.aside (.datagram src dst d)⟩

/-- **Every run has a chronicle**, of every socket. -/
theorem run_chronicle (cfg : KernelConfig) (addrs : List IpAddr) (fd : Fd) {ops : List KernelOp}
    (h : (host cfg addrs).run ops = .ok k) : ∃ log n, Chronicle cfg addrs fd k log n := by
  have hstep : ∀ k k' : Kernel, (∃ log n, Chronicle cfg addrs fd k log n) → KStep .any k k' →
      ∃ log n, Chronicle cfg addrs fd k' log n := by
    rintro k k' ⟨log, n, hk⟩ hs
    exact hk.step hs
  have hdrain : ∀ k : Kernel, (∃ log n, Chronicle cfg addrs fd k log n) →
      ∃ log n, Chronicle cfg addrs fd { k with outbound := [] } log n := by
    rintro k ⟨log, n, hk⟩
    exact ⟨log, n, hk.drain⟩
  exact (run_invariant hstep hdrain (Sound.host cfg addrs) ⟨_, _, .start⟩ h).2

/-! ## 3. What holds along a chronicle -/

/-- What is known whatever the configuration. -/
structure Begun (cfg : KernelConfig) (fd : Fd) (k : Kernel) (log : List Said) (n : Nat) : Prop where
  sound : k.Sound
  config : k.cfg = cfg
  idle : log = [] → n = 0
  /-- Descriptors are not used again. -/
  used : log ≠ [] → fd < k.sockets.nextId ∧ (k.lookup fd = none ∨ k.conn? fd ≠ none)
  spoken : k.conn? fd ≠ none → log ≠ []
  /-- The SYN or the SYN-ACK. -/
  first : log ≠ [] → ∃ e ∈ log, e.seg.window = defaultWindow ∧ e.buffered = 0

/-- The socket has no part in a step: its connection stays as it was, or goes. -/
structure Aside (fd : Fd) (k k' : Kernel) : Prop where
  config : k'.cfg = k.cfg
  nextId : k.sockets.nextId ≤ k'.sockets.nextId
  conn : k'.lookup fd = none ∨ k'.conn? fd = k.conn? fd
  gone : k.lookup fd = none → fd < k.sockets.nextId → k'.lookup fd = none

theorem Aside.same (hcfg : k'.cfg = k.cfg) (hid : k.sockets.nextId ≤ k'.sockets.nextId)
    (hconn : k'.conn? fd = k.conn? fd)
    (hknown : ∀ st, fd < k.sockets.nextId → k'.lookup fd = some st → ∃ st, k.lookup fd = some st) :
    Aside fd k k' := by
  refine ⟨hcfg, hid, Or.inr hconn, fun hnone hlt => ?_⟩
  cases hl : k'.lookup fd with
  | none => rfl
  | some st =>
    obtain ⟨st', hst'⟩ := hknown st hlt hl
    cases hnone.symm.trans hst'

theorem Aside.opened {g : Fd} {c : Conn} {loc : SocketAddr} {seg : TcpSegment} (hne : g ≠ fd)
    (h : Opened k k' g c loc seg) : Aside fd k k' :=
  .same h.cfg h.nextId ((h.conn fd).trans (if_neg (Ne.symm hne)))
    fun st _ hst => ⟨st, h.known fd st (Ne.symm hne) hst⟩

theorem KStep.aside (h : KStep (without fd k) k k') : Aside fd k k' := by
  have hcfg := h.cfg.1
  cases h with
  | quiet hq =>
    refine .same hcfg hq.nextId (hq.conn fd) fun st hlt hst => ?_
    rcases hq.known fd st hst with hold | ⟨hnew, -⟩
    · exact hold
    · exact absurd hlt (Nat.not_lt.mpr hnew)
  | act hc ha hin hq hloc hclosed hfit =>
    rename_i g c t loc rem a segs closed
    have hne : g ≠ fd := by
      by_cases hi : ∃ s, a = .inbound s
      · obtain ⟨s, hs⟩ := hi
        obtain ⟨hfind, hother⟩ := hin s hs
        rintro rfl
        exact hother hfind
      · exact hq fun s hs => hi ⟨s, hs⟩
    refine .same hcfg (by rw [emitAll_eq]; exact Nat.le_refl _) ?_ fun st _ hst => ?_
    · rw [conn?_emitAll, conn?_putTcb hc, if_neg (Ne.symm hne)]
    · rw [emitAll_eq] at hst
      obtain ⟨st', hst', -⟩ := lookup_putTcb hc t closed hst
      exact ⟨st', hst'⟩
  | connect hst ht ho hopen => exact .opened ho hopen
  | accept hnone hin hsyn ho hid hopen => exact .opened ho hopen
  | remove hrm =>
    rename_i g
    refine ⟨hcfg, Nat.le_refl _, ?_, fun hnone _ => ?_⟩
    · by_cases hg : fd = g
      · exact Or.inl (by rw [lookup_removeSocket, if_pos hg])
      · exact Or.inr (by rw [conn?_removeSocket, if_neg hg])
    · rw [lookup_removeSocket, hnone, ite_self]
  | reject => exact .same hcfg (Nat.le_refl _) rfl fun st _ hst => ⟨st, hst⟩
  | reset => exact .same hcfg (Nat.le_refl _) rfl fun st _ hst => ⟨st, hst⟩
  | datagram => exact .same hcfg (Nat.le_refl _) rfl fun st _ hst => ⟨st, hst⟩

theorem Aside.conn_of (h : Aside fd k k') {c : Conn} (hc : k'.conn? fd = some c) :
    k.conn? fd = some c := by
  rcases h.conn with hnone | hconn
  · obtain ⟨st, hst⟩ := lookup_of_conn hc
    cases hnone.symm.trans hst
  · exact hconn ▸ hc

theorem Begun.aside (hk : Begun cfg fd k log n) (hs : k'.Sound) (h : Aside fd k k') :
    Begun cfg fd k' log n := by
  refine ⟨hs, h.config.trans hk.config, hk.idle, fun hne => ?_, fun hc => ?_, hk.first⟩
  · obtain ⟨hlt, hold⟩ := hk.used hne
    refine ⟨Nat.lt_of_lt_of_le hlt h.nextId, ?_⟩
    rcases hold with hnone | hconn
    · exact Or.inl (h.gone hnone hlt)
    · rcases h.conn with hnone | heq
      · exact Or.inl hnone
      · exact Or.inr (heq ▸ hconn)
  · obtain ⟨c, hc⟩ := Option.ne_none_iff_exists'.mp hc
    exact hk.spoken (Option.ne_none_iff_exists'.mpr ⟨c, h.conn_of hc⟩)

theorem Begun.opened (hk : Begun cfg fd k log n) (hs : k'.Sound) {c : Conn} {loc : SocketAddr}
    {seg : TcpSegment} (hopen : Opened k k' fd c loc seg) (hlt : fd < k'.sockets.nextId)
    (hnew : log = []) (hwindow : seg.window = defaultWindow) :
    Begun cfg fd k' (log ++ [⟨seg, 0, n⟩]) n := by
  have hc : k'.conn? fd = some c := (hopen.conn fd).trans (if_pos rfl)
  subst hnew
  refine ⟨hs, hopen.cfg.trans hk.config, nofun, fun _ => ⟨hlt, Or.inr ?_⟩, fun _ => nofun,
    fun _ => ⟨_, List.mem_singleton_self _, hwindow, rfl⟩⟩
  rw [hc]
  exact nofun

/-- A socket connects once. -/
theorem Begun.new_of_connect (hk : Begun cfg fd k log n) {st : Socket} (hst : k.lookup fd = some st)
    (ht : st.tcb = none) : log = [] := by
  by_contra hne
  rcases (hk.used hne).2 with hnone | hconn
  · cases hnone.symm.trans hst
  · obtain ⟨c, hc⟩ := Option.ne_none_iff_exists'.mp hconn
    obtain ⟨st', hst', ht', -⟩ := conn?_eq_some.mp hc
    cases hst'.symm.trans hst
    cases ht'.symm.trans ht

/-- A new socket has said nothing. -/
theorem Begun.new_of_accept (hk : Begun cfg fd k log n) (hfd : fd = k.sockets.nextId) :
    log = [] := by
  by_contra hne
  have hlt := (hk.used hne).1
  rw [hfd] at hlt
  exact Nat.lt_irrefl _ hlt

theorem Chronicle.begun (h : Chronicle cfg addrs fd k log n) : Begun cfg fd k log n := by
  induction h with
  | start =>
    obtain ⟨as, has⟩ := host_eq cfg addrs
    refine ⟨Sound.host cfg addrs, by rw [has]; rfl, fun _ => rfl, fun hne => absurd rfl hne,
      fun hc => ?_, fun hne => absurd rfl hne⟩
    rw [has] at hc
    exact absurd rfl hc
  | aside h hs ih => exact ih.aside (ih.sound.step hs) hs.aside
  | drain h ih => exact ⟨⟨ih.sound.fresh, ih.sound.bound, ih.sound.streams⟩, ih.config, ih.idle,
      ih.used, ih.spoken, ih.first⟩
  | connect h hst ht hseg hopen ih =>
    subst hseg
    have hs : Kernel.Sound _ := ih.sound.step (KStep.connect (σ := .any) hst ht trivial hopen)
    have hlt := Nat.lt_of_lt_of_le (ih.sound.fresh _ _ hst) hopen.nextId
    exact ih.opened hs hopen hlt (ih.new_of_connect hst ht) rfl
  | accept h hfd hnone hsyn hid hseg hopen ih =>
    subst hseg
    subst hfd
    have hs : Kernel.Sound _ :=
      ih.sound.step (KStep.accept (σ := .any) hnone trivial hsyn trivial hid hopen)
    have hlt := Nat.lt_of_lt_of_eq (Nat.lt_succ_self _) hid.symm
    exact ih.opened hs hopen hlt (ih.new_of_accept rfl) rfl
  | act h hc ha hin hloc hclosed hfit ih =>
    rename_i k log n c t loc rem a segs closed
    have hstep : KStep .any k ((k.putTcb fd t closed).emitAll loc rem segs) :=
      .act hc ha (fun s hs => ⟨hin s hs, trivial⟩) (fun _ => trivial) hloc hclosed hfit
    have hold : log ≠ [] := ih.spoken (by rw [hc]; exact nofun)
    refine ⟨ih.sound.step hstep, hstep.cfg.1.trans ih.config, fun hnil => ?_, fun _ => ⟨?_, ?_⟩,
      fun _ hnil => ?_, fun _ => ?_⟩
    · exact absurd (List.append_eq_nil_iff.mp hnil).1 hold
    · rw [emitAll_eq]
      exact (ih.used hold).1
    · rw [conn?_emitAll, conn?_putTcb hc, if_pos rfl]
      exact Or.inr nofun
    · exact absurd (List.append_eq_nil_iff.mp hnil).1 hold
    · obtain ⟨e, he, hwindow⟩ := ih.first hold
      exact ⟨e, List.mem_append_left _ he, hwindow⟩

/-! ## 4. The edges do not move left -/

/-- A control block, and what its socket has said so far. -/
structure Standing (cfg : KernelConfig) (t : Tcb) (log : List Said) (n : Nat) : Prop where
  buffers : t.Buffers cfg
  early : t.state.handshake = true → n = 0
  waiting : t.state = .synSent → Said.acks log = []
  edge : ∀ e ∈ log, e.edge ≤ n + t.room cfg

/-- What holds along a chronicle if the buffer can keep what the constant promises. -/
structure Fair (cfg : KernelConfig) (fd : Fd) (k : Kernel) (log : List Said) (n : Nat) : Prop where
  room : ∀ e ∈ log, e.seg.window.toNat ≤ cfg.recvBufCap - e.buffered
  numbered : ∃ base : UInt32, (∀ e ∈ Said.acks log, e.seg.ack = base + UInt32.ofNat e.taken)
    ∧ ∀ c, k.conn? fd = some c → c.tcb.state ≠ .synSent → c.tcb.rcvNxt = base + UInt32.ofNat n
  edges : log.Pairwise (·.edge ≤ ·.edge)
  conn : ∀ c, k.conn? fd = some c → Standing cfg c.tcb log n

/-- What is said in one act has one edge. -/
theorem said_edge {t t' : Tcb} {segs : List TcpSegment} (hs : t.Spoken cfg t' segs)
    {seg : TcpSegment} (hseg : seg ∈ segs) (buffered taken : Nat) :
    Said.edge ⟨seg, buffered, taken⟩ = taken + t'.room cfg :=
  congrArg (taken + ·) (hs.window seg hseg)

/-- What a connection says in one act. -/
theorem Standing.act {t t' : Tcb} {segs : List TcpSegment} (h : Standing cfg t log n)
    (hs : t.Spoken cfg t' segs) :
    Standing cfg t' (log ++ segs.map fun seg => ⟨seg, t'.recvBuf.length, n + t.taken t'⟩)
      (n + t.taken t') := by
  refine ⟨hs.buffers, fun hearly => ?_, fun hwait => ?_, fun e he => ?_⟩
  · have hstate : t.state.handshake = true := hs.handshake hearly ▸ hearly
    rw [h.early hstate, hs.nothing hstate]
  · have hstate : t.state = .synSent := by
      rw [← hs.handshake (by rw [hwait]; rfl), hwait]
    rw [Said.acks_append, h.waiting hstate, List.nil_append]
    refine List.filter_eq_nil_iff.mpr fun e he => ?_
    obtain ⟨seg, hseg, rfl⟩ := List.mem_map.mp he
    rw [hs.waiting hwait seg hseg]
    exact Bool.false_ne_true
  · have hedge := hs.edge
    rcases List.mem_append.mp he with hold | hnew
    · have := h.edge e hold
      omega
    · obtain ⟨seg, hseg, rfl⟩ := List.mem_map.mp hnew
      exact Nat.le_of_eq (said_edge hs hseg _ _)

theorem Fair.act (hk : Fair cfg fd k log n) {c c' : Conn} {segs : List TcpSegment}
    (hc : k.conn? fd = some c) (hc' : k'.conn? fd = some c')
    (hs : c.tcb.Spoken cfg c'.tcb segs) :
    Fair cfg fd k'
      (log ++ segs.map fun seg => ⟨seg, c'.tcb.recvBuf.length, n + c.tcb.taken c'.tcb⟩)
      (n + c.tcb.taken c'.tcb) := by
  have hstand := hk.conn c hc
  refine ⟨fun e he => ?_, ?_, ?_, fun d hd => ?_⟩
  · rcases List.mem_append.mp he with hold | hnew
    · exact hk.room e hold
    · obtain ⟨seg, hseg, rfl⟩ := List.mem_map.mp hnew
      rw [hs.window seg hseg]
      exact Nat.min_le_left _ _
  · by_cases hwait : c.tcb.state = .synSent
    -- the numbers begin with the first acknowledgement
    · have hearly : c.tcb.state.handshake = true := by rw [hwait]; rfl
      have hzero : n + c.tcb.taken c'.tcb = 0 := by
        rw [hstand.early hearly, hs.nothing hearly]
      refine ⟨c'.tcb.rcvNxt, fun e he => ?_, fun d hd _ => ?_⟩
      · rw [Said.acks_append, hstand.waiting hwait, List.nil_append] at he
        obtain ⟨hmem, hack⟩ := Said.mem_acks.mp he
        obtain ⟨seg, hseg, rfl⟩ := List.mem_map.mp hmem
        rw [hs.ack seg hseg hack, hzero]
        exact (UInt32.add_zero _).symm
      · cases hc'.symm.trans hd
        rw [hzero]
        exact (UInt32.add_zero _).symm
    · obtain ⟨base, hold, hnow⟩ := hk.numbered
      have hnxt : c'.tcb.rcvNxt = base + UInt32.ofNat (n + c.tcb.taken c'.tcb) := by
        rw [hs.number hwait, hnow c hc hwait, UInt32.ofNat_add, UInt32.add_assoc]
      refine ⟨base, fun e he => ?_, fun d hd _ => ?_⟩
      · rw [Said.acks_append] at he
        rcases List.mem_append.mp he with he | he
        · exact hold e he
        · obtain ⟨hmem, hack⟩ := Said.mem_acks.mp he
          obtain ⟨seg, hseg, rfl⟩ := List.mem_map.mp hmem
          rw [hs.ack seg hseg hack, hnxt]
      · cases hc'.symm.trans hd
        exact hnxt
  · refine List.pairwise_append.mpr ⟨hk.edges, ?_, fun e he e' he' => ?_⟩
    · refine List.pairwise_map.mpr (List.pairwise_iff_forall_sublist.mpr fun {a b} hab => ?_)
      refine Nat.le_of_eq ?_
      rw [said_edge hs (hab.subset (List.mem_cons_self ..)),
        said_edge hs (hab.subset (List.mem_cons_of_mem _ (List.mem_cons_self ..)))]
    · obtain ⟨seg, hseg, rfl⟩ := List.mem_map.mp he'
      have hle := hstand.edge e he
      have hedge := hs.edge
      rw [said_edge hs hseg]
      omega
  · cases hc'.symm.trans hd
    exact hstand.act hs

/-- The first segment of a connection. -/
theorem Fair.opened (hcap : 65535 ≤ cfg.recvBufCap) {t : Tcb} {c : Conn} {seg : TcpSegment}
    (hc : k'.conn? fd = some c) (ht : c.tcb = t) (hbuf : t.recvBuf = []) (hfin : t.peerFin = false)
    (hwindow : seg.window = defaultWindow)
    (hack : seg.flags.ack = true → seg.ack = t.rcvNxt ∧ t.state ≠ .synSent) :
    Fair cfg fd k' [⟨seg, 0, 0⟩] 0 := by
  have hroom : t.room cfg = 65535 := by
    rw [Tcb.room, hbuf]
    exact Nat.min_eq_right hcap
  refine ⟨List.forall_mem_singleton.mpr ?_, ⟨t.rcvNxt, fun e he => ?_, fun d hd _ => ?_⟩,
    List.pairwise_singleton _ _, fun d hd => ?_⟩
  · rw [hwindow]
    exact hcap
  · obtain ⟨hmem, he⟩ := Said.mem_acks.mp he
    cases List.mem_singleton.mp hmem
    exact (hack he).1.trans (UInt32.add_zero _).symm
  · cases hc.symm.trans hd
    rw [ht]
    exact (UInt32.add_zero _).symm
  · cases hc.symm.trans hd
    rw [ht]
    refine ⟨⟨by rw [hbuf]; exact Nat.zero_le _, fun _ => ⟨hbuf, hfin⟩⟩, fun _ => rfl,
      fun hwait => ?_, List.forall_mem_singleton.mpr ?_⟩
    · refine List.filter_eq_nil_iff.mpr fun e he => ?_
      cases List.mem_singleton.mp he
      exact fun ha => (hack ha).2 hwait
    · rw [hroom, Said.edge, hwindow]
      exact Nat.le_refl _

theorem Chronicle.fair (hcap : 65535 ≤ cfg.recvBufCap) (h : Chronicle cfg addrs fd k log n) :
    Fair cfg fd k log n := by
  induction h with
  | start =>
    refine ⟨List.forall_mem_nil _, ⟨0, List.forall_mem_nil _, fun c hc => ?_⟩, .nil, fun c hc => ?_⟩
    all_goals
      obtain ⟨as, has⟩ := host_eq cfg addrs
      rw [has] at hc
      cases hc
  | aside h hs ih =>
    obtain ⟨base, hacks, hnow⟩ := ih.numbered
    exact ⟨ih.room, ⟨base, hacks, fun c hc => hnow c (hs.aside.conn_of hc)⟩, ih.edges,
      fun c hc => ih.conn c (hs.aside.conn_of hc)⟩
  | drain h ih => exact ⟨ih.room, ih.numbered, ih.edges, ih.conn⟩
  | connect h hst ht hseg hopen ih =>
    have hnew := h.begun.new_of_connect hst ht
    rw [hnew, h.begun.idle hnew]
    subst hseg
    exact .opened hcap ((hopen.conn fd).trans (if_pos rfl)) rfl rfl rfl rfl nofun
  | accept h hfd hnone hsyn hid hseg hopen ih =>
    have hnew := h.begun.new_of_accept hfd
    rw [hnew, h.begun.idle hnew]
    subst hseg
    exact .opened hcap ((hopen.conn fd).trans (if_pos rfl)) rfl rfl rfl rfl fun _ => ⟨rfl, nofun⟩
  | act h hc ha hin hloc hclosed hfit ih =>
    rename_i k log n c t loc rem a segs closed
    rw [h.begun.config] at ha
    have hspoken := Tcb.Spoken.act hcap (ih.conn _ hc).buffers hfit ha
    have hc' : ((k.putTcb fd t closed).emitAll loc rem segs).conn? fd
        = some ⟨c.bound, t, closed⟩ := by
      rw [conn?_emitAll, conn?_putTcb hc, if_pos rfl]
    exact ih.act hc hc' hspoken

/-! ## 5. Honest windows -/

/-- What a socket has said of its room was true. -/
structure Honest (cfg : KernelConfig) (fd : Fd) (k : Kernel) (log : List Said) (n : Nat) :
    Prop where
  /-- No segment promised more than there was. -/
  room : ∀ e ∈ log, e.seg.window.toNat ≤ cfg.recvBufCap - e.buffered
  /-- Acknowledgement numbers count what was taken in. -/
  numbered : ∃ base : UInt32, ∀ e ∈ Said.acks log, e.seg.ack = base + UInt32.ofNat e.taken
  /-- The right edge does not move left. -/
  edges : (Said.acks log).Pairwise (·.edge ≤ ·.edge)
  /-- What comes in order and ends below an edge that was once advertised is taken whole. -/
  fits : ∀ c, k.conn? fd = some c → ∀ e ∈ log, ∀ s : TcpSegment, s.seq = c.tcb.rcvNxt →
    c.tcb.peerFin = false → n + s.payload.length ≤ e.edge →
    (c.tcb.onData cfg.recvBufCap s).1.recvBuf = c.tcb.recvBuf ++ s.payload

/-- What fits the buffer is taken whole. -/
theorem onData_whole {recvCap : Nat} {t : Tcb} {s : TcpSegment} (hseq : s.seq = t.rcvNxt)
    (hopen : t.peerFin = false) (hroom : t.recvBuf.length + s.payload.length ≤ recvCap) :
    (t.onData recvCap s).1.recvBuf = t.recvBuf ++ s.payload := by
  have hcase := Tcb.onData_case recvCap t s
  generalize t.onData recvCap s = r at hcase ⊢
  cases hcase with
  | taken m hm hpos _ _ =>
    show t.recvBuf ++ s.payload.take m = _
    rw [List.take_of_length_le (by omega)]
  | ignored hno =>
    have hnil : s.payload = [] := by
      rcases hno with hnil | hne | hfin | hfull
      · exact hnil
      · exact absurd hseq hne
      · cases hopen.symm.trans hfin
      · exact List.eq_nil_of_length_eq_zero (by omega)
    rw [hnil, List.append_nil]

theorem Fair.honest (h : Fair cfg fd k log n) : Honest cfg fd k log n := by
  obtain ⟨base, hacks, -⟩ := h.numbered
  refine ⟨h.room, ⟨base, hacks⟩, h.edges.filter _, fun c hc e he s hseq hopen hle => ?_⟩
  refine onData_whole hseq hopen ?_
  have hstand := h.conn c hc
  have hedge := hstand.edge e he
  have hfits := hstand.buffers.fits
  unfold Tcb.room at hedge
  omega

/-- The first segment of a connection promises `DEFAULT_WINDOW`. -/
theorem Begun.not_room (h : Begun cfg fd k log n) (hcap : cfg.recvBufCap < 65535) (hne : log ≠ []) :
    ¬ ∀ e ∈ log, e.seg.window.toNat ≤ cfg.recvBufCap - e.buffered := by
  intro hroom
  obtain ⟨e, he, hwindow, hempty⟩ := h.first hne
  have hle := hroom e he
  rw [hwindow, hempty] at hle
  exact absurd (Nat.lt_of_le_of_lt hle hcap) (Nat.lt_irrefl _)

/-- **The advertised windows of a socket are honest** along every run, exactly if the receive
buffer can hold `DEFAULT_WINDOW` bytes or the socket has no connection to speak for. -/
theorem windows_honest_iff (h : Chronicle cfg addrs fd k log n) :
    Honest cfg fd k log n ↔ 65535 ≤ cfg.recvBufCap ∨ log = [] := by
  refine ⟨fun hon => ?_, fun hor => ?_⟩
  · by_contra hneg
    obtain ⟨hcap, hne⟩ := not_or.mp hneg
    exact h.begun.not_room (Nat.not_le.mp hcap) hne hon.room
  · rcases hor with hcap | hnil
    · exact (h.fair hcap).honest
    · subst hnil
      refine ⟨List.forall_mem_nil _, ⟨0, List.forall_mem_nil _⟩, .nil, fun c hc e he => ?_⟩
      cases he

/-- A host whose receive buffers hold `cap` bytes connects to itself. -/
def dialSelf (cap : Nat) : Except Panic Kernel :=
  (host { KernelConfig.default with recvBufCap := cap } []).run
    [.call (.bind ⟨.v4 0x7F000001, 80⟩ .stream), .call (.listen 1 8),
      .call (.openSocket .inet .stream), .call (.connect 2 ⟨.v4 0x7F000001, 80⟩), .egress 4]

/-- It does so whatever they hold, and the socket has spoken. -/
theorem dialSelf_chronicle (cap : Nat)
    (h : ((dialSelf cap).toOption.bind (·.conn? 2)).isSome = true) :
    ∃ k log n, dialSelf cap = .ok k
      ∧ Chronicle { KernelConfig.default with recvBufCap := cap } [] 2 k log n ∧ log ≠ [] := by
  obtain ⟨c, hc⟩ := Option.isSome_iff_exists.mp h
  obtain ⟨k, hk, hc⟩ := Option.bind_eq_some_iff.mp hc
  have hrun := toOption_eq_some.mp hk
  obtain ⟨log, n, hlog⟩ := run_chronicle _ _ 2 hrun
  exact ⟨k, log, n, hrun, hlog, hlog.begun.spoken (by rw [hc]; exact nofun)⟩

/-- The default capacity holds what the constant promises. -/
theorem windows_honest_iff_default : ∃ k log n, dialSelf 65536 = .ok k
    ∧ Chronicle { KernelConfig.default with recvBufCap := 65536 } [] 2 k log n ∧ log ≠ []
    ∧ Honest { KernelConfig.default with recvBufCap := 65536 } 2 k log n := by
  obtain ⟨k, log, n, hrun, hlog, hne⟩ := dialSelf_chronicle 65536 (by decide +kernel)
  exact ⟨k, log, n, hrun, hlog, hne, (windows_honest_iff hlog).mpr (Or.inl (by decide))⟩

/-- A buffer of one byte does not. -/
theorem one_byte_promised_as_many : ∃ k log n, dialSelf 1 = .ok k
    ∧ Chronicle { KernelConfig.default with recvBufCap := 1 } [] 2 k log n
    ∧ ¬ Honest { KernelConfig.default with recvBufCap := 1 } 2 k log n := by
  obtain ⟨k, log, n, hrun, hlog, hne⟩ := dialSelf_chronicle 1 (by decide +kernel)
  exact ⟨k, log, n, hrun, hlog, fun hon => hlog.begun.not_room (by decide) hne hon.room⟩

end Kernel

end Turmoil.Net
