/-
# The sequence space of a control block

`snd_una` is where the send buffer begins, `snd_nxt` what was sent of it, and the FIN's number has
no byte behind it.  The counters wrap, a retransmission moves `snd_nxt` back, and an
acknowledgement can carry any number.  Still `split_to` is always given a length the buffer has:
what an acknowledgement covers is at most what is in flight, and what is in flight is at most the
buffer, plus the FIN.

The argument.  `Tcb.SeqSpace` counts everything from `snd_una`, where the wrapped numbers are
offsets below `2 ^ 32`; each act keeps it (`Tcb.Numbered.act`).  An aborted control block is left
out: its buffers are emptied and its counters stay behind, but it is in `Closed`, where no segment
is looked at.  By `KStep` the invariant holds in every kernel that is reached
(`Kernel.Numbered.step`), and no call can be out of range.
-/
import Turmoil.Lib.Serial
import Turmoil.Net.Calls

namespace Turmoil.Net

namespace Tcb

/-! ## 1. The invariant -/

/-- Was the connection reset, or given up? -/
def aborted (t : Tcb) : Bool := t.reset || t.timedOut

/-- The FIN was sent, and `snd_nxt` was not taken back since. -/
def finEmitted (t : Tcb) : Bool :=
  match t.finSeq with
  | some fs => t.sndNxt == fs + 1
  | none => false

/-- The peer has acknowledged the FIN. -/
def finAcked (t : Tcb) : Bool :=
  match t.finSeq with
  | some fs => t.sndUna == fs + 1
  | none => false

/-- The counters of a control block, counted from `snd_una`: `flight` is what was sent. -/
structure SeqSpace (cfg : KernelConfig) (t : Tcb) (flight : Nat) : Prop where
  sent : t.sndNxt = serial t.sndUna flight
  sendLen : t.sendBuf.length ≤ cfg.sendBufCap
  recvLen : t.recvBuf.length ≤ cfg.recvBufCap
  writing : t.wrClosed = false → t.finSeq = none ∧ flight ≤ t.sendBuf.length
  /-- The FIN is what comes after the buffer, or it has gone and so has the buffer. -/
  shut : t.wrClosed = true →
    (t.finSeq = some (serial t.sndUna t.sendBuf.length) ∧ flight ≤ t.sendBuf.length + 1)
      ∨ (t.finSeq = some (t.sndUna - 1) ∧ t.sendBuf = [] ∧ flight = 0)

/-- The invariant of a control block, aborted or not. -/
structure Numbered (cfg : KernelConfig) (t : Tcb) : Prop where
  closed : t.aborted = true → t.state = .closed
  seqSpace : t.aborted = false → ∃ flight, t.SeqSpace cfg flight

variable {cfg : KernelConfig} {t t' : Tcb} {n : Nat}

theorem SeqSpace.flight_le (h : t.SeqSpace cfg n) : n ≤ t.sendBuf.length + 1 := by
  cases hw : t.wrClosed with
  | false => exact Nat.le_succ_of_le (h.writing hw).2
  | true =>
    rcases h.shut hw with ⟨-, hle⟩ | ⟨-, -, h0⟩
    · exact hle
    · omega

/-! ## 2. Acknowledgements -/

/-- The control block after `a` bytes were acknowledged. -/
def ackedData (t : Tcb) (a : Nat) (wnd : UInt16) : Tcb :=
  { t with
    sendBuf := t.sendBuf.drop a
    sndUna := serial t.sndUna a
    sndWnd := wnd
    egressSinceAck := 0
    retxAttempts := 0 }

/-- The control block after everything was acknowledged, and the FIN. -/
def ackedFin (t : Tcb) (wnd : UInt16) : Tcb :=
  { t with
    sendBuf := []
    sndUna := serial t.sndUna (t.sendBuf.length + 1)
    sndWnd := wnd
    egressSinceAck := 0
    retxAttempts := 0
    state := t.state.onFinAcked }

/-- What the acknowledgement of a segment can do. -/
inductive AckCase (t : Tcb) (n : Nat) (s : TcpSegment) : Tcb → Prop
  | silent (hack : s.flags.ack = false) : AckCase t n s t
  /-- It covers nothing that is in flight. -/
  | stale (hack : s.flags.ack = true) (hout : ∀ a, 0 < a → a ≤ n → s.ack ≠ serial t.sndUna a) :
      AckCase t n s { t with sndWnd := s.window }
  | data (a : Nat) (hack : s.flags.ack = true) (hpos : 0 < a) (hle : a ≤ n)
      (hlen : a ≤ t.sendBuf.length) (hs : s.ack = serial t.sndUna a) :
      AckCase t n s (t.ackedData a s.window)
  | fin (hack : s.flags.ack = true) (hs : s.ack = serial t.sndUna (t.sendBuf.length + 1))
      (hn : n = t.sendBuf.length + 1) (hw : t.wrClosed = true)
      (hfin : t.finSeq = some (serial t.sndUna t.sendBuf.length)) :
      AckCase t n s (t.ackedFin s.window)

/-- Taking bytes off the buffer, none included. -/
theorem dropAcked_eq {buf : List UInt8} {d : UInt32} (hd : d.toNat ≤ buf.length) :
    dropAcked buf d = .ok (buf.drop d.toNat) := by
  unfold dropAcked
  by_cases h0 : 0 < d
  · rw [if_pos h0, splitTo, if_pos hd]
    rfl
  · rw [if_neg h0]
    rw [UInt32.lt_iff_toNat_lt, UInt32.toNat_zero, Nat.not_lt, Nat.le_zero] at h0
    rw [h0]
    rfl

section
variable (hcap : cfg.sendBufCap < 2 ^ 32 - 1)
include hcap

theorem SeqSpace.inFlight (h : t.SeqSpace cfg n) : t.inFlight.toNat = n := by
  have h1 := h.flight_le
  have h2 := h.sendLen
  rw [Tcb.inFlight, h.sent]
  nth_rewrite 2 [← serial_zero t.sndUna]
  rw [toNat_serial_sub (Nat.zero_le n) (by omega), Nat.sub_zero]

/-- Only the number after the FIN's acknowledges the FIN. -/
theorem SeqSpace.acksFin_iff (h : t.SeqSpace cfg n) {a : Nat} (hpos : 0 < a) (hle : a ≤ n) :
    t.acksFin (serial t.sndUna a) = true ↔ t.wrClosed = true ∧ t.finSeq = some (serial t.sndUna t.sendBuf.length)
      ∧ a = t.sendBuf.length + 1 := by
  have h1 := h.flight_le
  have h2 := h.sendLen
  unfold acksFin
  cases hw : t.wrClosed with
  | false => simp [(h.writing hw).1]
  | true =>
    rcases h.shut hw with ⟨hfs, -⟩ | ⟨-, -, h0⟩
    · rw [hfs]
      simp only [serial_add_one, beq_iff_eq, true_and]
      exact serial_inj (by omega) (by omega)
    · omega

/-- **The acknowledgement of any segment** is in range, and does one of four things. -/
theorem SeqSpace.onAck (h : t.SeqSpace cfg n) (s : TcpSegment) :
    ∃ t', t.onAck s = .ok t' ∧ AckCase t n s t' := by
  have hfl := h.inFlight hcap
  have h1 := h.flight_le
  have h2 := h.sendLen
  unfold Tcb.onAck
  cases hack : s.flags.ack with
  | false => exact ⟨t, rfl, .silent hack⟩
  | true =>
    obtain ⟨a, ha⟩ : ∃ a, a = (s.ack - t.sndUna).toNat := ⟨_, rfl⟩
    have hs : s.ack = serial t.sndUna a := ha ▸ eq_serial_sub t.sndUna s.ack
    by_cases hcov : 0 < a ∧ a ≤ n
    · have hguard : 0 < s.ack - t.sndUna ∧ s.ack - t.sndUna ≤ t.inFlight := by
        rw [UInt32.lt_iff_toNat_lt, UInt32.le_iff_toNat_le, hfl, ← ha]
        exact hcov
      have hiff := h.acksFin_iff hcap hcov.1 hcov.2
      rw [← hs] at hiff
      simp only [if_true, takeAck, if_pos hguard]
      by_cases hfin : t.wrClosed = true ∧ t.finSeq = some (serial t.sndUna t.sendBuf.length)
          ∧ a = t.sendBuf.length + 1
      · obtain ⟨hw, hfs, hal⟩ := hfin
        have hd : (s.ack - t.sndUna - 1).toNat = t.sendBuf.length := by
          rw [UInt32.toNat_sub_of_le _ _ (UInt32.le_iff_toNat_le.mpr (by rw [← ha]; exact hcov.1)),
            ← ha, hal]
          rfl
        refine ⟨t.ackedFin s.window, ?_, .fin hack (hal ▸ hs) (by omega) hw hfs⟩
        rw [hiff.mpr ⟨hw, hfs, hal⟩, if_pos rfl, dropAcked_eq (Nat.le_of_eq hd), hd,
          List.drop_length, hs, hal]
        rfl
      · have hlen : a ≤ t.sendBuf.length := by
          cases hw : t.wrClosed with
          | false => exact Nat.le_trans hcov.2 (h.writing hw).2
          | true =>
            rcases h.shut hw with ⟨hfs, hle⟩ | ⟨-, -, h0⟩
            · by_contra hgt
              exact hfin ⟨hw, hfs, by omega⟩
            · omega
        have hno := Bool.eq_false_iff.mpr (mt hiff.mp hfin)
        refine ⟨t.ackedData a s.window, ?_, .data a hack hcov.1 hcov.2 hlen hs⟩
        rw [hno, if_neg (by decide), dropAcked_eq (by rw [← ha]; exact hlen), ← ha, hs]
        rfl
    · have hguard : ¬ (0 < s.ack - t.sndUna ∧ s.ack - t.sndUna ≤ t.inFlight) := by
        rw [UInt32.lt_iff_toNat_lt, UInt32.le_iff_toNat_le, hfl, ← ha]
        exact hcov
      refine ⟨{ t with sndWnd := s.window }, ?_, .stale hack ?_⟩
      · simp only [if_true, takeAck, if_neg hguard]
        rfl
      · intro b hb hbn hsb
        have : b = a := (serial_inj (by omega) (by rw [ha]; exact UInt32.toNat_lt _)).mp
          (hsb.symm.trans hs)
        exact hcov (this ▸ ⟨hb, hbn⟩)

/-- Only when the whole buffer is in flight is the FIN next. -/
theorem SeqSpace.finPending_iff (h : t.SeqSpace cfg n) :
    t.finPending = true ↔ t.wrClosed = true
      ∧ t.finSeq = some (serial t.sndUna t.sendBuf.length) ∧ n = t.sendBuf.length := by
  have h1 := h.flight_le
  have h2 := h.sendLen
  unfold finPending
  cases hw : t.wrClosed with
  | false => simp [(h.writing hw).1]
  | true =>
    rcases h.shut hw with ⟨hfs, -⟩ | ⟨hfs, -, h0⟩
    · rw [hfs]
      simp only [beq_iff_eq, true_and]
      rw [h.sent]
      exact serial_inj (by omega) (by omega)
    · -- one less is not the same number
      have hne : ∀ a len : Nat, a = 0 → len ≤ cfg.sendBufCap →
          serial t.sndUna a ≠ t.sndUna - 1 ∧ t.sndUna - 1 ≠ serial t.sndUna len := by
        intro a len ha hlen
        have hu := t.sndUna.toNat_lt
        rw [ne_eq, ne_eq, ← UInt32.toNat_inj, ← UInt32.toNat_inj, toNat_serial, toNat_serial,
          UInt32.toNat_sub, UInt32.toNat_one]
        omega
      obtain ⟨hne1, hne2⟩ := hne n _ h0 h2
      rw [hfs]
      simp only [beq_iff_eq, h.sent, true_and, Option.some.injEq]
      exact ⟨fun he => absurd he hne1, fun he => absurd he.1 hne2⟩

end

/-! ## 3. What is sent -/

/-- A segment with bytes of the buffer. -/
def dataSegment (recvCap : Nat) (loc : SocketAddr) (t : Tcb) (payload : List UInt8) :
    TcpSegment where
  srcPort := loc.port
  dstPort := t.peer.port
  seq := t.sndNxt
  ack := t.rcvNxt
  flags := { ack := true, psh := !payload.isEmpty }
  window := advertisedWindow recvCap t.recvBuf.length
  payload := payload

/-- The segment with the FIN. -/
def finSegment (recvCap : Nat) (loc : SocketAddr) (t : Tcb) : TcpSegment where
  srcPort := loc.port
  dstPort := t.peer.port
  seq := t.sndNxt
  ack := t.rcvNxt
  flags := { ack := true, fin := true }
  window := advertisedWindow recvCap t.recvBuf.length
  payload := []

/-- How many bytes the next segment takes, with `n` of them in flight. -/
def nextLen (mss : Nat) (t : Tcb) (n : Nat) : Nat :=
  min (min (t.sendBuf.length - n) mss) (t.sndWnd.toNat - n)

/-- What a turn of the loop of `segment_one` can do. -/
inductive SegCase (recvCap mss : Nat) (loc : SocketAddr) (t : Tcb) (n : Nat) :
    Option (Tcb × TcpSegment) → Prop
  | data (hlen : n < t.sendBuf.length) (hwnd : n < t.sndWnd.toNat) :
      SegCase recvCap mss loc t n (some ({ t with sndNxt := serial t.sndUna (n + t.nextLen mss n) },
        t.dataSegment recvCap loc ((t.sendBuf.drop n).take (t.nextLen mss n))))
  | fin (hn : n = t.sendBuf.length) (hwnd : n < t.sndWnd.toNat) (hw : t.wrClosed = true)
      (hfin : t.finSeq = some (serial t.sndUna t.sendBuf.length)) :
      SegCase recvCap mss loc t n (some ({ t with sndNxt := serial t.sndUna (n + 1) },
        t.finSegment recvCap loc))
  | idle (hstop : n < t.sndWnd.toNat → t.sendBuf.length ≤ n ∧ t.finPending = false) :
      SegCase recvCap mss loc t n none

section
variable (hcap : cfg.sendBufCap < 2 ^ 32 - 1)
include hcap

/-- **A turn of the loop** is in range. -/
theorem SeqSpace.segmentStep (h : t.SeqSpace cfg n) (recvCap mss : Nat) (loc : SocketAddr) :
    ∃ r, t.segmentStep recvCap mss loc = .ok r ∧ SegCase recvCap mss loc t n r := by
  have hfl := h.inFlight hcap
  have hiff := h.finPending_iff hcap
  unfold Tcb.segmentStep
  rw [hfl]
  by_cases hdata : n < t.sendBuf.length ∧ n < t.sndWnd.toNat
  · refine ⟨_, ?_, .data hdata.1 hdata.2⟩
    have hcond : (decide (t.sendBuf.length - n > 0) && decide (t.sndWnd.toNat - n > 0)) = true := by
      simp only [Bool.and_eq_true, decide_eq_true_eq]
      omega
    have hslice : slice t.sendBuf n (n + t.nextLen mss n)
        = .ok ((t.sendBuf.drop n).take (t.nextLen mss n)) := by
      rw [slice, if_pos ⟨Nat.le_add_right _ _, by unfold nextLen; omega⟩, Nat.add_sub_cancel_left]
    rw [if_pos hcond, ← serial_add, ← h.sent]
    simp only [nextLen] at hslice
    simp only [hslice, nextLen]
    rfl
  · have hcond : ¬ (decide (t.sendBuf.length - n > 0) && decide (t.sndWnd.toNat - n > 0)) = true := by
      simp only [Bool.and_eq_true, decide_eq_true_eq]
      omega
    rw [if_neg hcond]
    by_cases hfin : t.finPending = true ∧ n < t.sndWnd.toNat
    · obtain ⟨hw, hfs, hn⟩ := hiff.mp hfin.1
      refine ⟨_, ?_, .fin hn hfin.2 hw hfs⟩
      rw [if_pos (by simp only [hfin.1, Bool.true_and, decide_eq_true_eq]; omega),
        ← serial_add_one, ← h.sent]
      rfl
    · refine ⟨none, ?_, .idle fun hwnd => ⟨by omega, ?_⟩⟩
      · rw [if_neg]
        · rfl
        · simp only [Bool.and_eq_true, decide_eq_true_eq]
          intro hc
          exact hfin ⟨hc.1, by omega⟩
      · cases hp : t.finPending with
        | false => rfl
        | true => exact absurd ⟨hp, hwnd⟩ hfin

end

/-! ## 4. What is accepted -/

/-- What the payload of a segment can do. -/
inductive DataCase (recvCap : Nat) (t : Tcb) (s : TcpSegment) : Tcb × Bool → Prop
  | taken (m : Nat) (hm : m = min s.payload.length (recvCap - t.recvBuf.length)) (hpos : 0 < m)
      (hseq : s.seq = t.rcvNxt) (hopen : t.peerFin = false) :
      DataCase recvCap t s ({ t with
        recvBuf := t.recvBuf ++ s.payload.take m
        rcvNxt := t.rcvNxt + UInt32.ofNat m }, true)
  | ignored (hno : s.payload = [] ∨ s.seq ≠ t.rcvNxt ∨ t.peerFin = true
      ∨ recvCap ≤ t.recvBuf.length) : DataCase recvCap t s (t, false)

theorem onData_case (recvCap : Nat) (t : Tcb) (s : TcpSegment) :
    DataCase recvCap t s (t.onData recvCap s) := by
  unfold Tcb.onData
  split
  · rename_i hc
    simp only [Bool.and_eq_true, Bool.not_eq_true', beq_iff_eq] at hc
    dsimp only
    split
    · rename_i hpos
      exact .taken _ rfl hpos hc.1.2 hc.2
    · rename_i hpos
      have hne : s.payload.length ≠ 0 := by
        intro h0
        rw [List.eq_nil_of_length_eq_zero h0] at hc
        exact absurd hc.1.1 (by decide)
      exact .ignored (Or.inr (Or.inr (Or.inr (by omega))))
  · rename_i hc
    refine .ignored ?_
    by_contra hall
    push Not at hall
    refine hc ?_
    simp only [Bool.and_eq_true, Bool.not_eq_true', beq_iff_eq]
    exact ⟨⟨by simpa using hall.1, hall.2.1⟩, by simpa using hall.2.2.1⟩

/-- What the FIN of a segment can do. -/
inductive FinCase (t : Tcb) (s : TcpSegment) : Tcb × Bool → Prop
  | taken (hfin : s.flags.fin = true) (hopen : t.peerFin = false)
      (hseq : s.seq + UInt32.ofNat s.payload.length = t.rcvNxt) :
      FinCase t s ({ t with
        peerFin := true
        rcvNxt := t.rcvNxt + 1
        state := t.state.onPeerFin }, true)
  | ignored (hno : s.flags.fin = false ∨ t.peerFin = true
      ∨ s.seq + UInt32.ofNat s.payload.length ≠ t.rcvNxt) : FinCase t s (t, false)

theorem onFin_case (t : Tcb) (s : TcpSegment) : FinCase t s (t.onFin s) := by
  unfold Tcb.onFin
  split
  · rename_i hc
    simp only [Bool.and_eq_true, Bool.not_eq_true', beq_iff_eq] at hc
    exact .taken hc.1.1 hc.1.2 hc.2
  · rename_i hc
    refine .ignored ?_
    by_contra hall
    push Not at hall
    refine hc ?_
    simp only [Bool.and_eq_true, Bool.not_eq_true', beq_iff_eq]
    exact ⟨⟨by simpa using hall.1, by simpa using hall.2.1⟩, hall.2.2⟩

/-- What `poll_send` can do. -/
inductive SendCase (sendCap : Nat) (t : Tcb) (buf : List UInt8) :
    Tcb × Poll (Except NetError Nat) → Prop
  | accepted (hlive : t.abortError = none) (hopen : t.wrClosed = false)
      (hstate : t.state = .established ∨ t.state = .closeWait)
      (hroom : t.sendBuf.length < sendCap) :
      SendCase sendCap t buf
        ({ t with sendBuf := t.sendBuf ++ buf.take (min buf.length (sendCap - t.sendBuf.length)) },
          .ready (.ok (min buf.length (sendCap - t.sendBuf.length))))
  | refused (r : Poll (Except NetError Nat)) (hno : ∀ n, r ≠ .ready (.ok n)) :
      SendCase sendCap t buf (t, r)

theorem pollSend_case (sendCap : Nat) (t : Tcb) (buf : List UInt8) :
    SendCase sendCap t buf (t.pollSend sendCap buf) := by
  unfold Tcb.pollSend
  split
  · exact .refused _ (by simp)
  · rename_i hlive
    split
    · exact .refused _ (by simp)
    · rename_i hopen
      split
      · exact .refused _ (by simp)
      · rename_i hstate
        dsimp only
        split
        · exact .refused _ (by simp)
        · refine .accepted hlive (by simpa using hopen) ?_ (by omega)
          simp only [Bool.not_eq_true', Bool.not_eq_false, Bool.or_eq_true, beq_iff_eq] at hstate
          exact hstate

/-- What `poll_shutdown_write` can do. -/
theorem pollShutdownWrite_case (t : Tcb) :
    (t.pollShutdownWrite.1 = t.shutWrite ∧ t.abortError = none ∧ t.wrClosed = false)
      ∨ t.pollShutdownWrite.1 = t := by
  unfold Tcb.pollShutdownWrite
  split
  · exact Or.inr rfl
  · rename_i hlive
    split
    · exact Or.inr rfl
    · rename_i hopen
      exact Or.inl ⟨rfl, hlive, by simpa using hopen⟩

theorem drainInto_append (data : List UInt8) (lens : List Nat) :
    (drainInto data lens).1 ++ (drainInto data lens).2 = data := by
  induction lens generalizing data with
  | nil => rfl
  | cons len lens ih =>
    unfold drainInto
    dsimp only
    split
    · exact List.take_append_drop len data
    · simp only [List.append_assoc, ih, List.take_append_drop]

/-- What a read can do: take from the front of the buffer, report the end, or nothing. -/
inductive RecvCase (recvCap : Nat) (t : Tcb) (lens : List Nat) :
    Tcb × Poll (Except NetError (List UInt8)) × Bool → Prop
  | read (out rest : List UInt8) (hsplit : out ++ rest = t.recvBuf)
      (hout : (out, rest) = drainInto t.recvBuf lens) (hlive : t.abortError = none)
      (hne : t.recvBuf ≠ []) :
      RecvCase recvCap t lens
        ({ t with recvBuf := rest }, .ready (.ok out), decide (out.length ≥ recvCap / 2))
  | eof (hlive : t.abortError = none) (hempty : t.recvBuf = []) (hfin : t.peerFin = true) :
      RecvCase recvCap t lens (t, .ready (.ok []), false)
  | refused (r : Poll (Except NetError (List UInt8))) (hno : ∀ bs, r ≠ .ready (.ok bs)) :
      RecvCase recvCap t lens (t, r, false)

theorem pollRecvVectored_case (recvCap : Nat) (t : Tcb) (lens : List Nat) :
    RecvCase recvCap t lens (t.pollRecvVectored recvCap lens) := by
  unfold Tcb.pollRecvVectored
  split
  · exact .refused _ (by simp)
  · rename_i hlive
    split
    · rename_i hempty
      have hnil : t.recvBuf = [] := by simpa using hempty
      split
      · rename_i hfin
        exact .eof hlive hnil hfin
      · split
        · exact .refused _ (by simp)
        · exact .refused _ (by simp)
    · rename_i hempty
      exact .read _ _ (drainInto_append t.recvBuf lens) rfl hlive (by simpa using hempty)

/-- The sweep of `check_retx` counts, and may take `snd_nxt` back. -/
theorem checkRetx_case (threshold max : Nat) (t : Tcb) :
    ∃ since attempts, (t.checkRetx threshold max).1
        = { t with egressSinceAck := since, retxAttempts := attempts }
      ∨ (t.checkRetx threshold max).1
        = { t with egressSinceAck := since, retxAttempts := attempts, sndNxt := t.sndUna } := by
  unfold Tcb.checkRetx
  dsimp only
  split
  · exact ⟨_, _, Or.inl rfl⟩
  · split
    · exact ⟨_, _, Or.inl rfl⟩
    · split
      · exact ⟨_, _, Or.inl rfl⟩
      · exact ⟨_, _, Or.inr rfl⟩

/-! ## 5. Every act keeps the numbers -/

/-- The invariant reads the sending side and the length of the receive buffer. -/
theorem SeqSpace.congr (h : t.SeqSpace cfg n) (h1 : t'.sndNxt = t.sndNxt) (h2 : t'.sndUna = t.sndUna)
    (h3 : t'.sendBuf = t.sendBuf) (h4 : t'.wrClosed = t.wrClosed) (h5 : t'.finSeq = t.finSeq)
    (h6 : t'.recvBuf.length ≤ cfg.recvBufCap) : t'.SeqSpace cfg n where
  sent := by rw [h1, h2]; exact h.sent
  sendLen := by rw [h3]; exact h.sendLen
  recvLen := h6
  writing := by rw [h3, h4, h5]; exact h.writing
  shut := by rw [h2, h3, h4, h5]; exact h.shut

/-- The send buffer was cut at an acknowledged byte. -/
theorem SeqSpace.ackedData (h : t.SeqSpace cfg n) {a : Nat} (hle : a ≤ n)
    (hlen : a ≤ t.sendBuf.length) (wnd : UInt16) : (t.ackedData a wnd).SeqSpace cfg (n - a) where
  sent := by
    simp only [Tcb.ackedData]
    rw [serial_serial, Nat.add_sub_cancel' hle]
    exact h.sent
  sendLen := by
    have := h.sendLen
    simp only [Tcb.ackedData, List.length_drop]
    omega
  recvLen := h.recvLen
  writing hw := by
    obtain ⟨h1, h2⟩ := h.writing hw
    refine ⟨h1, ?_⟩
    simp only [Tcb.ackedData, List.length_drop]
    omega
  shut hw := by
    simp only [Tcb.ackedData, List.length_drop, serial_serial, Nat.add_sub_cancel' hlen]
    rcases h.shut hw with ⟨h1, h2⟩ | ⟨h1, h2, h3⟩
    · exact Or.inl ⟨h1, by omega⟩
    · have ha : a = 0 := by omega
      exact Or.inr ⟨by rw [ha, serial_zero]; exact h1, by rw [h2, List.drop_nil], by omega⟩

theorem SeqSpace.ackCase {s : TcpSegment} (h : t.SeqSpace cfg n) (hc : AckCase t n s t') :
    ∃ m, t'.SeqSpace cfg m := by
  cases hc with
  | silent => exact ⟨n, h⟩
  | stale => exact ⟨n, h.congr rfl rfl rfl rfl rfl h.recvLen⟩
  | data a hack hpos hle hlen hs => exact ⟨n - a, h.ackedData hle hlen s.window⟩
  | fin hack hs hn hw hfin =>
    refine ⟨0, ⟨?_, Nat.zero_le _, h.recvLen, ?_, ?_⟩⟩
    · simp only [ackedFin]
      rw [serial_zero, h.sent, hn]
    · intro hopen
      exact absurd (hw.symm.trans hopen) (by decide)
    · intro _
      refine Or.inr ⟨?_, rfl, rfl⟩
      simp only [ackedFin, serial_sub_one]
      exact hfin

/-- Payload and FIN touch the receiving side only. -/
theorem SeqSpace.onData (h : t.SeqSpace cfg n) (s : TcpSegment) :
    (t.onData cfg.recvBufCap s).1.SeqSpace cfg n := by
  have hcase := onData_case cfg.recvBufCap t s
  generalize t.onData cfg.recvBufCap s = r at hcase ⊢
  cases hcase with
  | taken m hm hpos hseq hopen =>
    refine h.congr rfl rfl rfl rfl rfl ?_
    have := h.recvLen
    simp only [List.length_append, List.length_take]
    omega
  | ignored hno => exact h

theorem SeqSpace.onFin (h : t.SeqSpace cfg n) (s : TcpSegment) : (t.onFin s).1.SeqSpace cfg n := by
  have hcase := onFin_case t s
  generalize t.onFin s = r at hcase ⊢
  cases hcase with
  | taken => exact h.congr rfl rfl rfl rfl rfl h.recvLen
  | ignored => exact h

theorem SeqSpace.pollSend (h : t.SeqSpace cfg n) (buf : List UInt8) :
    (t.pollSend cfg.sendBufCap buf).1.SeqSpace cfg n := by
  have hcase := pollSend_case cfg.sendBufCap t buf
  generalize t.pollSend cfg.sendBufCap buf = r at hcase ⊢
  cases hcase with
  | refused => exact h
  | accepted hlive hopen hstate hroom =>
    obtain ⟨h1, h2⟩ := h.writing hopen
    refine ⟨h.sent, ?_, h.recvLen, fun _ => ⟨h1, ?_⟩, fun hw => absurd (hopen.symm.trans hw) (by decide)⟩
    · simp only [List.length_append, List.length_take]
      omega
    · simp only [List.length_append]
      omega

theorem SeqSpace.shutWrite (h : t.SeqSpace cfg n) (hw : t.wrClosed = false) :
    t.shutWrite.SeqSpace cfg n where
  sent := h.sent
  sendLen := h.sendLen
  recvLen := h.recvLen
  writing hopen := by cases hopen
  shut _ := Or.inl ⟨rfl, Nat.le_succ_of_le (h.writing hw).2⟩

theorem SeqSpace.rewind (h : t.SeqSpace cfg n) : ({ t with sndNxt := t.sndUna } : Tcb).SeqSpace cfg 0 where
  sent := (serial_zero t.sndUna).symm
  sendLen := h.sendLen
  recvLen := h.recvLen
  writing hw := ⟨(h.writing hw).1, Nat.zero_le _⟩
  shut hw := by
    rcases h.shut hw with ⟨h1, -⟩ | ⟨h1, h2, -⟩
    · exact Or.inl ⟨h1, Nat.zero_le _⟩
    · exact Or.inr ⟨h1, h2, rfl⟩

theorem SeqSpace.checkRetx (h : t.SeqSpace cfg n) (threshold max : Nat) :
    ∃ m, (t.checkRetx threshold max).1.SeqSpace cfg m := by
  obtain ⟨since, attempts, heq | heq⟩ := checkRetx_case threshold max t <;> rw [heq]
  · exact ⟨n, h.congr rfl rfl rfl rfl rfl h.recvLen⟩
  · exact ⟨0, h.rewind.congr rfl rfl rfl rfl rfl h.recvLen⟩

theorem SeqSpace.pollRecvVectored (h : t.SeqSpace cfg n) (recvCap : Nat) (lens : List Nat) :
    (t.pollRecvVectored recvCap lens).1.SeqSpace cfg n := by
  have hcase := pollRecvVectored_case recvCap t lens
  generalize t.pollRecvVectored recvCap lens = r at hcase ⊢
  cases hcase with
  | read out rest hsplit =>
    refine h.congr rfl rfl rfl rfl rfl ?_
    have hlen := congrArg List.length hsplit
    have := h.recvLen
    rw [List.length_append] at hlen
    dsimp only
    omega
  | _ => exact h

theorem SeqSpace.segCase {recvCap mss : Nat} {loc : SocketAddr} {seg : TcpSegment}
    (h : t.SeqSpace cfg n) (hc : SegCase recvCap mss loc t n (some (t', seg))) :
    ∃ m, t'.SeqSpace cfg m := by
  cases hc with
  | data hlen hwnd =>
    have hn : n + t.nextLen mss n ≤ t.sendBuf.length := by
      unfold nextLen
      omega
    refine ⟨n + t.nextLen mss n, ⟨rfl, h.sendLen, h.recvLen, fun hw => ⟨(h.writing hw).1, hn⟩,
      fun hw => ?_⟩⟩
    rcases h.shut hw with ⟨h1, -⟩ | ⟨-, h2, -⟩
    · exact Or.inl ⟨h1, Nat.le_succ_of_le hn⟩
    · rw [h2] at hlen
      cases hlen
  | fin hn hwnd hw hfin =>
    refine ⟨n + 1, ⟨rfl, h.sendLen, h.recvLen, fun hw' => absurd (hw.symm.trans hw') (by decide),
      fun _ => Or.inl ⟨hfin, Nat.le_of_eq (congrArg (· + 1) hn)⟩⟩⟩

section
variable {recvCap mss fuel : Nat} {loc : SocketAddr} {seg : TcpSegment}

theorem segmentLoop_idle (h : t.segmentStep recvCap mss loc = .ok none) :
    t.segmentLoop recvCap mss loc (fuel + 1) = .ok (t, []) := by
  rw [segmentLoop, h]
  rfl

theorem segmentLoop_turn (h : t.segmentStep recvCap mss loc = .ok (some (t', seg))) :
    t.segmentLoop recvCap mss loc (fuel + 1)
      = t'.segmentLoop recvCap mss loc fuel >>= fun r => pure (r.1, seg :: r.2) := by
  rw [segmentLoop, h]
  rfl

theorem segmentLoop_panic {e : Panic} (h : t.segmentStep recvCap mss loc = .error e) :
    t.segmentLoop recvCap mss loc (fuel + 1) = .error e := by
  rw [segmentLoop, h]
  rfl

end

theorem SeqSpace.segmentLoop (hcap : cfg.sendBufCap < 2 ^ 32 - 1) {recvCap mss : Nat}
    {loc : SocketAddr} : ∀ {fuel n : Nat} {t t' : Tcb} {segs : List TcpSegment}, t.SeqSpace cfg n →
      t.segmentLoop recvCap mss loc fuel = .ok (t', segs) → ∃ m, t'.SeqSpace cfg m := by
  intro fuel
  induction fuel with
  | zero =>
    intro n t t' segs _ h
    cases h
  | succ fuel ih =>
    intro n t t' segs hn h
    obtain ⟨r, hr, hcase⟩ := hn.segmentStep hcap recvCap mss loc
    cases r with
    | none =>
      rw [segmentLoop_idle hr] at h
      cases h
      exact ⟨n, hn⟩
    | some r =>
      obtain ⟨m, hm⟩ := hn.segCase hcase
      rw [segmentLoop_turn hr] at h
      obtain ⟨⟨t2, segs2⟩, h2, h⟩ := bind_eq_ok.mp h
      cases h
      exact ih hm h2

/-- The slice of `segment_one` is in range whatever the counters are. -/
theorem segmentStep_inRange (recvCap mss : Nat) (loc : SocketAddr) (t : Tcb) :
    t.segmentStep recvCap mss loc ≠ .error .outOfRange
      ∧ ∀ t' seg, t.segmentStep recvCap mss loc = .ok (some (t', seg)) →
        ∃ x, t' = { t with sndNxt := x } := by
  unfold Tcb.segmentStep
  dsimp only
  split
  · rename_i hcond
    simp only [Bool.and_eq_true, decide_eq_true_eq] at hcond
    rw [slice, if_pos ⟨Nat.le_add_right _ _, by omega⟩]
    constructor
    · intro h
      cases h
    · intro t' seg h
      cases h
      exact ⟨_, rfl⟩
  · split
    · constructor
      · intro h
        cases h
      · intro t' seg h
        cases h
        exact ⟨_, rfl⟩
    · constructor
      · intro h
        cases h
      · intro t' seg h
        cases h

/-- The loop moves `snd_nxt` and nothing else. -/
theorem segmentLoop_inRange {recvCap mss : Nat} {loc : SocketAddr} : ∀ {fuel : Nat} {t : Tcb},
    t.segmentLoop recvCap mss loc fuel ≠ .error .outOfRange
      ∧ ∀ t' segs, t.segmentLoop recvCap mss loc fuel = .ok (t', segs) →
        ∃ x, t' = { t with sndNxt := x } := by
  intro fuel
  induction fuel with
  | zero =>
    intro t
    constructor
    · intro h
      cases h
    · intro t' segs h
      cases h
  | succ fuel ih =>
    intro t
    obtain ⟨h1, h2⟩ := segmentStep_inRange recvCap mss loc t
    cases hr : t.segmentStep recvCap mss loc with
    | error e =>
      rw [segmentLoop_panic hr]
      constructor
      · intro h
        exact h1 (hr.trans (congrArg Except.error (Except.error.inj h)))
      · intro t' segs h
        cases h
    | ok r =>
      cases r with
      | none =>
        rw [segmentLoop_idle hr]
        constructor
        · intro h
          cases h
        · intro t' segs h
          cases h
          exact ⟨t.sndNxt, rfl⟩
      | some r =>
        obtain ⟨u, seg⟩ := r
        rw [segmentLoop_turn hr]
        obtain ⟨x, rfl⟩ := h2 u seg hr
        constructor
        · intro h
          rcases bind_eq_error.mp h with h | ⟨r, -, h⟩
          · exact ih.1 h
          · cases h
        · intro t' segs h
          obtain ⟨⟨t2, segs2⟩, h3, h⟩ := bind_eq_ok.mp h
          cases h
          obtain ⟨y, rfl⟩ := ih.2 _ _ h3
          exact ⟨y, rfl⟩

/-! ## 6. Aborted or numbered -/

theorem Numbered.abort (reason : AbortReason) (t : Tcb) : (t.abort reason).Numbered cfg := by
  have hab : (t.abort reason).aborted = true := by
    cases reason <;> simp [Tcb.abort, aborted]
  exact ⟨fun _ => rfl, fun h => absurd (hab.symm.trans h) (by decide)⟩

/-- An act that keeps the flags of an abort: the aborted control block stays closed, and any other
keeps its numbers. -/
theorem Numbered.of_flags (h : t.Numbered cfg) (h1 : t'.reset = t.reset)
    (h2 : t'.timedOut = t.timedOut) (h3 : t.aborted = true → t.state = .closed → t'.state = .closed)
    (h4 : t.aborted = false → ∀ n, t.SeqSpace cfg n → ∃ m, t'.SeqSpace cfg m) :
    t'.Numbered cfg := by
  have hab : t'.aborted = t.aborted := by
    rw [aborted, h1, h2, aborted]
  constructor
  · intro ha
    rw [hab] at ha
    exact h3 ha (h.closed ha)
  · intro ha
    rw [hab] at ha
    obtain ⟨n, hn⟩ := h.seqSpace ha
    exact h4 ha n hn

theorem Numbered.shutWrite (h : t.Numbered cfg) (hopen : t.wrClosed = false) :
    t.shutWrite.Numbered cfg := by
  refine h.of_flags rfl rfl (fun _ hc => ?_) fun _ n hn => ⟨n, hn.shutWrite hopen⟩
  simp only [Tcb.shutWrite, hc]
  rfl

/-- A control block past the handshake and not closed. -/
theorem Numbered.seqSpace_of_state (h : t.Numbered cfg) (hs : t.state ≠ .closed) :
    ∃ n, t.SeqSpace cfg n :=
  h.seqSpace (by
    cases ha : t.aborted with
    | false => rfl
    | true => exact absurd (h.closed ha) hs)

theorem handleEstablished_of_onAck {recvCap : Nat} {s : TcpSegment} (h : t.onAck s = .ok t') :
    t.handleEstablished recvCap s = .ok (((t'.onData recvCap s).1.onFin s).1,
      (t'.onData recvCap s).2 || ((t'.onData recvCap s).1.onFin s).2) := by
  rw [Tcb.handleEstablished, h]
  rfl

/-- Payload and FIN leave the flags of an abort alone. -/
theorem onData_onFin_flags (recvCap : Nat) (t : Tcb) (s : TcpSegment) :
    ((t.onData recvCap s).1.onFin s).1.reset = t.reset
      ∧ ((t.onData recvCap s).1.onFin s).1.timedOut = t.timedOut := by
  have hd : (t.onData recvCap s).1.reset = t.reset
      ∧ (t.onData recvCap s).1.timedOut = t.timedOut := by
    have hcase := onData_case recvCap t s
    generalize t.onData recvCap s = r at hcase ⊢
    cases hcase <;> exact ⟨rfl, rfl⟩
  rw [← hd.1, ← hd.2]
  generalize (t.onData recvCap s).1 = u
  have hcase := onFin_case u s
  generalize u.onFin s = r at hcase ⊢
  cases hcase <;> exact ⟨rfl, rfl⟩

section
variable (hcap : cfg.sendBufCap < 2 ^ 32 - 1)
include hcap

/-- `handle_established` returns, and keeps the numbers. -/
theorem SeqSpace.handleEstablished (h : t.SeqSpace cfg n) (s : TcpSegment) :
    ∃ r m, t.handleEstablished cfg.recvBufCap s = .ok r ∧ r.1.SeqSpace cfg m
      ∧ r.1.reset = t.reset ∧ r.1.timedOut = t.timedOut := by
  obtain ⟨u, hu, hcase⟩ := h.onAck hcap s
  obtain ⟨m, hm⟩ := h.ackCase hcase
  obtain ⟨h1, h2⟩ := onData_onFin_flags cfg.recvBufCap u s
  have hflags : u.reset = t.reset ∧ u.timedOut = t.timedOut := by
    cases hcase <;> exact ⟨rfl, rfl⟩
  exact ⟨_, m, handleEstablished_of_onAck hu, (hm.onData s).onFin s, h1.trans hflags.1,
    h2.trans hflags.2⟩

/-- A segment for a control block. -/
theorem Numbered.onSegment (h : t.Numbered cfg) (loc rem : SocketAddr) (s : TcpSegment) :
    ∃ r, t.onSegment cfg.recvBufCap loc rem s = .ok r ∧ r.1.Numbered cfg := by
  unfold Tcb.onSegment
  split
  · exact ⟨_, rfl, Numbered.abort .reset t⟩
  · -- the handshake changes nothing that is counted
    have hshake : ∀ t' : Tcb, t.state ≠ .closed → t'.reset = t.reset → t'.timedOut = t.timedOut →
        t'.sndNxt = t.sndNxt → t'.sndUna = t.sndUna → t'.sendBuf = t.sendBuf →
        t'.wrClosed = t.wrClosed → t'.finSeq = t.finSeq → t'.recvBuf = t.recvBuf →
        t'.Numbered cfg := by
      intro t' hst h1 h2 h3 h4 h5 h6 h7 h8
      refine h.of_flags h1 h2 (fun _ hc => absurd hc hst) fun _ n hn => ⟨n, ?_⟩
      exact hn.congr h3 h4 h5 h6 h7 (by rw [h8]; exact hn.recvLen)
    split
    · rename_i hst
      split
      · exact ⟨_, rfl, hshake _ (by rw [hst]; decide) rfl rfl rfl rfl rfl rfl rfl rfl⟩
      · exact ⟨_, rfl, h⟩
    · rename_i hst
      split
      · split
        · exact ⟨_, rfl, h⟩
        · exact ⟨_, rfl, hshake _ (by rw [hst]; decide) rfl rfl rfl rfl rfl rfl rfl rfl⟩
      · exact ⟨_, rfl, h⟩
    · exact ⟨_, rfl, h⟩
    · rename_i hst
      obtain ⟨n, hn⟩ := h.seqSpace_of_state hst
      obtain ⟨r, m, hr, hm, h1, h2⟩ := hn.handleEstablished hcap s
      rw [hr]
      refine ⟨_, rfl, h.of_flags h1 h2 (fun _ hc => absurd hc hst) fun _ _ _ => ⟨m, hm⟩⟩

/-- **Every act** keeps the numbers. -/
theorem Numbered.act (h : t.Numbered cfg) {loc rem : SocketAddr} {a : TcbAct}
    {segs : List TcpSegment} (ha : t.act cfg loc rem a = .ok (t', segs)) : t'.Numbered cfg := by
  cases a with
  | inbound s =>
    obtain ⟨r, hr, hnum⟩ := h.onSegment hcap loc rem s
    rw [Tcb.act, hr] at ha
    cases ha
    exact hnum
  | send buf =>
    cases ha
    obtain ⟨h1, h2, h3⟩ : (t.pollSend cfg.sendBufCap buf).1.reset = t.reset
        ∧ (t.pollSend cfg.sendBufCap buf).1.timedOut = t.timedOut
        ∧ (t.pollSend cfg.sendBufCap buf).1.state = t.state := by
      have hcase := pollSend_case cfg.sendBufCap t buf
      generalize t.pollSend cfg.sendBufCap buf = r at hcase ⊢
      cases hcase <;> exact ⟨rfl, rfl, rfl⟩
    exact h.of_flags h1 h2 (fun _ hc => h3.trans hc) fun _ n hn => ⟨n, hn.pollSend buf⟩
  | shutdown =>
    cases ha
    rcases pollShutdownWrite_case t with ⟨heq, -, hopen⟩ | heq
    · rw [heq]
      exact h.shutWrite hopen
    · rw [heq]
      exact h
  | recv lens =>
    cases ha
    obtain ⟨h1, h2, h3⟩ : (t.pollRecvVectored cfg.recvBufCap lens).1.reset = t.reset
        ∧ (t.pollRecvVectored cfg.recvBufCap lens).1.timedOut = t.timedOut
        ∧ (t.pollRecvVectored cfg.recvBufCap lens).1.state = t.state := by
      have hcase := pollRecvVectored_case cfg.recvBufCap t lens
      generalize t.pollRecvVectored cfg.recvBufCap lens = r at hcase ⊢
      cases hcase <;> exact ⟨rfl, rfl, rfl⟩
    exact h.of_flags h1 h2 (fun _ hc => h3.trans hc)
      fun _ n hn => ⟨n, hn.pollRecvVectored cfg.recvBufCap lens⟩
  | linger =>
    cases ha
    split
    · exact h
    · rename_i hw
      exact h.shutWrite (by simpa using hw)
  | count =>
    cases ha
    obtain ⟨h1, h2, h3⟩ : (t.checkRetx cfg.retxThreshold cfg.retxMax).1.reset = t.reset
        ∧ (t.checkRetx cfg.retxThreshold cfg.retxMax).1.timedOut = t.timedOut
        ∧ (t.checkRetx cfg.retxThreshold cfg.retxMax).1.state = t.state := by
      obtain ⟨since, attempts, heq | heq⟩ := checkRetx_case cfg.retxThreshold cfg.retxMax t <;>
        rw [heq] <;> exact ⟨rfl, rfl, rfl⟩
    exact h.of_flags h1 h2 (fun _ hc => h3.trans hc) fun _ n hn => hn.checkRetx _ _
  | giveUp =>
    cases ha
    exact Numbered.abort .timedOut t
  | handshake =>
    obtain ⟨seg, -, ha⟩ := bind_eq_ok.mp ha
    cases ha
    exact h
  | segment mss =>
    obtain ⟨x, hx⟩ := segmentLoop_inRange.2 _ _ ha
    refine h.of_flags (by rw [hx]) (by rw [hx]) (fun _ hc => by rw [hx]; exact hc) fun _ n hn => ?_
    exact hn.segmentLoop hcap ha

end

end Tcb

end Turmoil.Net
