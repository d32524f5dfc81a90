/-
# The drain of `egress` ends

A pass of `egress` cuts what may be sent into segments, takes the queue, and delivers what is
addressed to the host itself; a delivery can queue an answer and open a window, and then there is
another pass.  The loop ends because every segment costs something that is not given back.

A control block owes its unsent bytes and its FIN (`Tcb.owed`), and a delivery never adds to that:
what an acknowledgement takes off the buffer it takes off the bytes in flight too.  Every queued
packet weighs what it can still provoke: a SYN its SYN-ACK, that and every byte or FIN an
acknowledgement, anything else a RST, and a RST nothing.  `Kernel.work` adds both up.  Segmentation
does not increase it, and each packet that is taken from the queue decreases it.

Nothing is assumed of the size of the send buffer: what is in flight never exceeds the window, which
has 16 bits (`Tcb.Paced`), so the sequence numbers do not come round.
-/
import Turmoil.Net.CloseStates

namespace Turmoil.Net

/-! ## 1. What a control block owes -/

/-- The states that a shutdown leaves at once, or has not reached yet. -/
def TcpState.unshut : TcpState → Bool
  | .synSent | .synReceived | .established | .closeWait => true
  | _ => false

namespace Tcb

/-- The bytes that wait to be sent. -/
def unsent (t : Tcb) : Nat := t.sendBuf.length - t.inFlight.toNat

/-- Is our FIN still to be sent? -/
def finOwed (t : Tcb) : Nat :=
  match t.finSeq with
  | some fs => if t.sndNxt = fs + 1 then 0 else 1
  | none => 0

/-- What can still be sent without a call of the application; the two states that send nothing and
come to nothing else owe nothing. -/
def owed (t : Tcb) : Nat :=
  if t.state = .finWait2 ∨ t.state = .closed then 0 else 2 * t.unsent + t.finOwed

/-- The invariant: what is in flight fits a window, and a FIN queued during the handshake has no
bytes before it. -/
structure Paced (t : Tcb) : Prop where
  window : t.inFlight.toNat ≤ 65535
  opening : t.state.handshake = true → t.sendBuf = []
  shut : t.finSeq.isSome = true → t.wrClosed = true
  idle : t.finSeq.isSome = true → t.state.unshut = true → t.sendBuf = []

variable {t t' : Tcb} {s : TcpSegment} {recvCap mss fuel : Nat} {loc rem : SocketAddr}

/-- The invariant does not read what a peer sent. -/
theorem Paced.congr (h : t.Paced) (h1 : t'.sndNxt = t.sndNxt) (h2 : t'.sndUna = t.sndUna)
    (h3 : t'.sendBuf = t.sendBuf) (h4 : t'.wrClosed = t.wrClosed) (h5 : t'.finSeq = t.finSeq)
    (h6 : t'.state.handshake = true → t.state.handshake = true)
    (h7 : t'.state.unshut = true → t.state.unshut = true) : t'.Paced where
  window := by
    rw [inFlight, h1, h2]
    exact h.window
  opening hs := by
    rw [h3]
    exact h.opening (h6 hs)
  shut hf := by
    rw [h4]
    exact h.shut (h5 ▸ hf)
  idle hf hs := by
    rw [h3]
    exact h.idle (h5 ▸ hf) (h7 hs)

/-- What is owed is read off the sending side. -/
theorem owed_congr (h1 : t'.sndNxt = t.sndNxt) (h2 : t'.sndUna = t.sndUna)
    (h3 : t'.sendBuf = t.sendBuf) (h4 : t'.finSeq = t.finSeq)
    (h5 : t.state = .finWait2 ∨ t.state = .closed → t'.state = .finWait2 ∨ t'.state = .closed) :
    t'.owed ≤ t.owed := by
  have hunsent : t'.unsent = t.unsent := by rw [unsent, unsent, inFlight, inFlight, h1, h2, h3]
  have hfin : t'.finOwed = t.finOwed := by rw [finOwed, finOwed, h1, h4]
  unfold owed
  split
  · exact Nat.zero_le _
  · rename_i hs
    rewrite [if_neg fun hs' => hs (h5 hs'), hunsent, hfin]
    exact Nat.le_refl _

/-! ## 2. Inbound segments -/

theorem inFlight_sub {a : UInt32} (h : a - t.sndUna ≤ t.inFlight) :
    (t.sndNxt - a).toNat = t.inFlight.toNat - (a - t.sndUna).toNat := by
  have hsub : t.sndNxt - a = t.inFlight - (a - t.sndUna) := by
    unfold inFlight
    grind
  rw [hsub, UInt32.toNat_sub_of_le _ _ h]

/-- What dropping acknowledged bytes leaves. -/
theorem dropAcked_ok {buf rest : List UInt8} {d : UInt32} (h : dropAcked buf d = .ok rest) :
    d.toNat ≤ buf.length ∧ rest = buf.drop d.toNat := by
  unfold dropAcked at h
  split at h
  · obtain ⟨⟨a, b⟩, h1, h⟩ := bind_eq_ok.mp h
    unfold splitTo at h1
    split at h1
    · rename_i hle
      cases h1
      cases h
      exact ⟨hle, rfl⟩
    · cases h1
  · rename_i hd
    cases h
    have hd : d.toNat = 0 := by
      have := UInt32.lt_iff_toNat_lt.not.mp hd
      simpa using this
    rw [hd]
    exact ⟨Nat.zero_le _, rfl⟩

/-- An acknowledged FIN ends a connection that was shut; the others it does not touch. -/
theorem onFinAcked_cases (st : TcpState) :
    (st.unshut = true ∧ st.onFinAcked = st) ∨ st.onFinAcked = .finWait2 ∨ st.onFinAcked = .closed := by
  cases st <;> decide

/-- **An acknowledgement** keeps the pace, and nothing more is owed after it. -/
theorem Paced.takeAck (h : t.Paced) {a : UInt32} (ha : t.takeAck a = .ok t') :
    t'.Paced ∧ t'.owed ≤ t.owed := by
  unfold Tcb.takeAck at ha
  dsimp only at ha
  split at ha
  · rename_i hrange
    obtain ⟨rest, hrest, ha⟩ := bind_eq_ok.mp ha
    cases ha
    obtain ⟨hle, rfl⟩ := dropAcked_ok hrest
    have hflight := inFlight_sub hrange.2
    have hpos : 0 < (a - t.sndUna).toNat := by simpa using UInt32.lt_iff_toNat_lt.mp hrange.1
    have hacked : (a - t.sndUna).toNat ≤ t.inFlight.toNat := UInt32.le_iff_toNat_le.mp hrange.2
    have hwindow := h.window
    cases hfin : t.acksFin a with
    | false =>
      simp only [hfin, Bool.false_eq_true, if_false] at hle ⊢
      have hbuf : (t.sendBuf.drop (a - t.sndUna).toNat).length
          = t.sendBuf.length - (a - t.sndUna).toNat := List.length_drop
      refine ⟨⟨?_, fun hs => ?_, h.shut, fun hf hs => ?_⟩, ?_⟩
      · show (t.sndNxt - a).toNat ≤ 65535
        omega
      · show t.sendBuf.drop _ = []
        rw [h.opening hs, List.drop_nil]
      · show t.sendBuf.drop _ = []
        rw [h.idle hf hs, List.drop_nil]
      · -- as many bytes leave the buffer as are no longer in flight
        unfold owed unsent
        show (if t.state = .finWait2 ∨ t.state = .closed then 0 else
          2 * ((t.sendBuf.drop _).length - (t.sndNxt - a).toNat) + t.finOwed) ≤ _
        rw [hbuf, hflight]
        split <;> omega
    | true =>
      have hsome : t.finSeq.isSome = true := by
        unfold acksFin at hfin
        split at hfin
        · rename_i fs hfs
          rw [hfs]
          rfl
        · cases hfin
      simp only [hfin, if_true] at hle ⊢
      have hw : (t.sndNxt - a).toNat ≤ 65535 := by omega
      rcases onFinAcked_cases t.state with ⟨hunshut, hsame⟩ | hover
      · -- the FIN was queued in the handshake, behind nothing
        have hnil := h.idle hsome hunshut
        refine ⟨⟨hw, fun _ => ?_, h.shut, fun _ _ => ?_⟩, ?_⟩
        · show t.sendBuf.drop _ = []
          rw [hnil, List.drop_nil]
        · show t.sendBuf.drop _ = []
          rw [hnil, List.drop_nil]
        · unfold owed unsent
          show (if t.state.onFinAcked = .finWait2 ∨ t.state.onFinAcked = .closed then 0 else
            2 * ((t.sendBuf.drop _).length - (t.sndNxt - a).toNat) + t.finOwed) ≤ _
          rw [hsame, hnil, List.drop_nil, List.length_nil, Nat.zero_sub]
          split <;> omega
      · refine ⟨⟨hw, fun hs => ?_, h.shut, fun _ hs => ?_⟩, ?_⟩
        · change t.state.onFinAcked.handshake = true at hs
          rcases hover with ho | ho <;> rw [ho] at hs <;> cases hs
        · change t.state.onFinAcked.unshut = true at hs
          rcases hover with ho | ho <;> rw [ho] at hs <;> cases hs
        · unfold owed
          rw [if_pos hover]
          exact Nat.zero_le _
  · cases ha
    exact ⟨h, Nat.le_refl _⟩

theorem Paced.onData (h : t.Paced) (recvCap : Nat) (s : TcpSegment) :
    (t.onData recvCap s).1.Paced
    ∧ (t.onData recvCap s).1.owed ≤ t.owed
    ∧ ((t.onData recvCap s).2 = true → s.payload ≠ []) := by
  have hcase := onData_case recvCap t s
  generalize t.onData recvCap s = r at hcase ⊢
  cases hcase with
  | taken m hm hpos =>
    refine ⟨h.congr rfl rfl rfl rfl rfl (fun hs => hs) (fun hs => hs),
      owed_congr rfl rfl rfl rfl fun hs => hs, fun _ hnil => ?_⟩
    rw [hm, hnil] at hpos
    simp at hpos
  | ignored => exact ⟨h, Nat.le_refl _, nofun⟩

theorem Paced.onFin (h : t.Paced) (s : TcpSegment) : (t.onFin s).1.Paced
    ∧ (t.onFin s).1.owed ≤ t.owed ∧ ((t.onFin s).2 = true → s.flags.fin = true) := by
  have hcase := onFin_case t s
  generalize t.onFin s = r at hcase ⊢
  cases hcase with
  | taken hfin hopen hseq =>
    refine ⟨h.congr rfl rfl rfl rfl rfl (fun hs => ?_) (fun hs => ?_),
      owed_congr rfl rfl rfl rfl fun hs => ?_, fun _ => hfin⟩
    · change t.state.onPeerFin.handshake = true at hs
      revert hs
      cases t.state <;> decide
    · change t.state.onPeerFin.unshut = true at hs
      revert hs
      cases t.state <;> decide
    · show t.state.onPeerFin = .finWait2 ∨ t.state.onPeerFin = .closed
      rcases hs with hs | hs <;> rw [hs] <;> exact Or.inr rfl
  | ignored => exact ⟨h, Nat.le_refl _, nofun⟩

/-- **A segment past the handshake**: nothing more is owed, and only bytes or a FIN are
acknowledged. -/
theorem Paced.handleEstablished (h : t.Paced) {sendAck : Bool}
    (hr : t.handleEstablished recvCap s = .ok (t', sendAck)) : t'.Paced ∧ t'.owed ≤ t.owed
      ∧ (sendAck = true → s.payload ≠ [] ∨ s.flags.fin = true) := by
  obtain ⟨t1, h1, hr⟩ := bind_eq_ok.mp hr
  have hack : t1.Paced ∧ t1.owed ≤ t.owed := by
    unfold onAck at h1
    split at h1
    · obtain ⟨t0, h0, h1⟩ := bind_eq_ok.mp h1
      cases h1
      obtain ⟨hp, ho⟩ := h.takeAck h0
      exact ⟨hp.congr rfl rfl rfl rfl rfl (fun hs => hs) (fun hs => hs),
        Nat.le_trans (owed_congr rfl rfl rfl rfl fun hs => hs) ho⟩
    · cases h1
      exact ⟨h, Nat.le_refl _⟩
  obtain ⟨hp1, ho1, hgot⟩ := hack.1.onData recvCap s
  obtain ⟨hp2, ho2, hfin⟩ := hp1.onFin s
  obtain ⟨rfl, hsend⟩ := Prod.mk.inj (Except.ok.inj hr)
  refine ⟨hp2, Nat.le_trans ho2 (Nat.le_trans ho1 hack.2), fun hs => ?_⟩
  rw [← hsend, Bool.or_eq_true] at hs
  exact hs.imp hgot hfin

/-! ## 3. Segmentation -/

theorem inFlight_add {n : Nat} (h : t.inFlight.toNat + n ≤ 65535) :
    (t.sndNxt + UInt32.ofNat n - t.sndUna).toNat = t.inFlight.toNat + n := by
  have hadd : t.sndNxt + UInt32.ofNat n - t.sndUna = t.inFlight + UInt32.ofNat n := by
    unfold inFlight
    grind
  have hn : (UInt32.ofNat n).toNat = n := Nat.mod_eq_of_lt (by omega)
  rw [hadd, UInt32.toNat_add, hn]
  exact Nat.mod_eq_of_lt (by omega)

/-- What is in flight changed within the window. -/
theorem Paced.sent (h : t.Paced) {x : UInt32} (hx : (x - t.sndUna).toNat ≤ 65535) :
    ({ t with sndNxt := x } : Tcb).Paced :=
  ⟨hx, h.opening, h.shut, h.idle⟩

theorem owed_of_carriesData (h : t.state.carriesData = true) : t.owed = 2 * t.unsent + t.finOwed := by
  refine if_neg fun hs => ?_
  rcases hs with hs | hs <;> rw [hs] at h <;> cases h

theorem finOwed_le_one (t : Tcb) : t.finOwed ≤ 1 := by
  unfold finOwed
  split
  · split <;> omega
  · omega

/-- A turn of `segment_one` has brought the control block on: fewer bytes wait, or nothing does. -/
structure Advances (t u : Tcb) : Prop where
  unsent : u.unsent < t.unsent ∨ u.unsent = 0 ∧ u.finPending = false
  owed : t.state.carriesData = true → u.owed < t.owed

/-- A turn of the loop of `segment_one`: done, some bytes, or the FIN behind the last of them. -/
theorem Paced.segmentStep (h : t.Paced) (recvCap mss : Nat) (loc : SocketAddr) :
    t.segmentStep recvCap mss loc = .ok none ∨
    ∃ x seg, t.segmentStep recvCap mss loc = .ok (some ({ t with sndNxt := x }, seg))
      ∧ ({ t with sndNxt := x } : Tcb).Paced
      ∧ (1 ≤ mss → t.Advances { t with sndNxt := x })
      ∧ seg.flags.rst = false ∧ seg.flags.syn = false := by
  have hwnd : t.sndWnd.toNat ≤ 65535 := Nat.le_of_lt_succ t.sndWnd.toNat_lt
  unfold Tcb.segmentStep
  dsimp only
  split
  · rename_i hcond
    simp only [Bool.and_eq_true, decide_eq_true_eq] at hcond
    generalize hn : min (min (t.sendBuf.length - t.inFlight.toNat) mss)
      (t.sndWnd.toNat - t.inFlight.toNat) = n
    have hflight := inFlight_add (t := t) (n := n) (by omega)
    have hunsent : ({ t with sndNxt := t.sndNxt + UInt32.ofNat n } : Tcb).unsent
        = t.unsent - n := by
      show t.sendBuf.length - (t.sndNxt + UInt32.ofNat n - t.sndUna).toNat = _
      rw [hflight, unsent]
      omega
    have hless : n ≤ t.unsent := by
      rw [unsent]
      omega
    rw [slice, if_pos ⟨Nat.le_add_right _ _, by omega⟩]
    refine Or.inr ⟨_, _, rfl, h.sent (by omega), fun hmss => ⟨Or.inl (by omega), fun hs => ?_⟩,
      rfl, rfl⟩
    have hfin := finOwed_le_one ({ t with sndNxt := t.sndNxt + UInt32.ofNat n } : Tcb)
    rw [owed_of_carriesData hs, owed_of_carriesData
      (show ({ t with sndNxt := t.sndNxt + UInt32.ofNat n } : Tcb).state.carriesData = true from hs),
      hunsent]
    omega
  · rename_i hcond
    split
    · rename_i hfin
      simp only [Bool.and_eq_true, decide_eq_true_eq] at hcond hfin
      obtain ⟨hfin, hroom⟩ := hfin
      have hflight := inFlight_add (t := t) (n := 1) (by omega)
      have hfs : t.finSeq = some t.sndNxt := by
        unfold finPending at hfin
        split at hfin
        · rename_i fs hfs
          rw [hfs, eq_of_beq hfin]
        · cases hfin
      have hone : t.sndNxt + 1 ≠ t.sndNxt := by grind
      have hunsent : ({ t with sndNxt := t.sndNxt + 1 } : Tcb).unsent = 0 := by
        show t.sendBuf.length - (t.sndNxt + UInt32.ofNat 1 - t.sndUna).toNat = 0
        rw [hflight]
        omega
      refine Or.inr ⟨_, _, rfl, h.sent ?_, fun _ => ⟨Or.inr ⟨hunsent, ?_⟩, fun hs => ?_⟩, rfl, rfl⟩
      · show (t.sndNxt + UInt32.ofNat 1 - t.sndUna).toNat ≤ 65535
        omega
      · show (match t.finSeq with
          | some fs => t.sndNxt + 1 == fs
          | none => false) = false
        rw [hfs]
        exact beq_eq_false_iff_ne.mpr hone
      · have hnow : t.finOwed = 1 := by
          rw [finOwed, hfs]
          exact if_neg hone.symm
        have hthen : ({ t with sndNxt := t.sndNxt + 1 } : Tcb).finOwed = 0 := by
          show (match t.finSeq with
            | some fs => if t.sndNxt + 1 = fs + 1 then 0 else 1
            | none => 0) = 0
          rw [hfs]
          exact if_pos rfl
        rw [owed_of_carriesData hs, owed_of_carriesData
          (show ({ t with sndNxt := t.sndNxt + 1 } : Tcb).state.carriesData = true from hs),
          hunsent, hnow, hthen]
        omega
    · exact Or.inl rfl

theorem segmentStep_idle (h1 : t.unsent = 0) (h2 : t.finPending = false) :
    t.segmentStep recvCap mss loc = .ok none := by
  unfold Tcb.segmentStep
  unfold unsent at h1
  simp only [h1, h2, Nat.lt_irrefl, decide_false, Bool.false_and, Bool.false_eq_true, if_false]
  rfl

/-- The loop of `segment_one` keeps the pace, whatever the segment size. -/
theorem Paced.segmentLoop {segs : List TcpSegment} : ∀ {fuel : Nat} {t : Tcb}, t.Paced →
    t.segmentLoop recvCap mss loc fuel = .ok (t', segs) → t'.Paced := by
  intro fuel
  induction fuel generalizing segs with
  | zero =>
    intro t _ h
    cases h
  | succ fuel ih =>
    intro t hp h
    rcases hp.segmentStep recvCap mss loc with hs | ⟨x, seg, hs, hx, -⟩
    · rw [segmentLoop_idle hs] at h
      cases h
      exact hp
    · rw [segmentLoop_turn hs] at h
      obtain ⟨⟨t2, segs2⟩, h2, h⟩ := bind_eq_ok.mp h
      cases h
      exact ih hx h2

/-- **The loop of `segment_one` ends**, and its segments are paid for. -/
theorem segmentLoop_ends (hmss : 1 ≤ mss) (recvCap : Nat) (loc : SocketAddr) :
    ∀ {fuel : Nat} {t : Tcb}, t.Paced →
    t.state.carriesData = true → t.unsent + 2 ≤ fuel →
    ∃ x segs, t.segmentLoop recvCap mss loc fuel = .ok ({ t with sndNxt := x }, segs)
      ∧ ({ t with sndNxt := x } : Tcb).owed + segs.length ≤ t.owed
      ∧ ∀ seg ∈ segs, seg.flags.rst = false ∧ seg.flags.syn = false := by
  intro fuel
  induction fuel with
  | zero =>
    intro t _ _ hfuel
    omega
  | succ fuel ih =>
    intro t hp hs hfuel
    rcases hp.segmentStep recvCap mss loc with hstep | ⟨x, seg, hstep, hx, hadv, hflags⟩
    · exact ⟨t.sndNxt, [], segmentLoop_idle hstep, Nat.le_refl _, fun seg hseg => by cases hseg⟩
    · obtain ⟨hless, hpaid⟩ := hadv hmss
      have hpaid := hpaid hs
      rcases hless with hless | ⟨hzero, hnofin⟩
      · obtain ⟨y, segs, hloop, howed, hsegs⟩ := ih hx hs (by omega)
        refine ⟨y, seg :: segs, ?_, ?_, ?_⟩
        · rw [segmentLoop_turn hstep, hloop]
          rfl
        · have howed : ({ t with sndNxt := y } : Tcb).owed + segs.length
              ≤ ({ t with sndNxt := x } : Tcb).owed := howed
          rw [List.length_cons]
          omega
        · exact List.forall_mem_cons.mpr ⟨hflags, hsegs⟩
      · -- after the FIN there is nothing left
        obtain ⟨fuel, rfl⟩ : ∃ f, fuel = f + 1 := ⟨fuel - 1, by omega⟩
        refine ⟨x, [seg], ?_, ?_, ?_⟩
        · rw [segmentLoop_turn hstep, segmentLoop_idle (segmentStep_idle hzero hnofin)]
          rfl
        · exact hpaid
        · exact List.forall_mem_cons.mpr ⟨hflags, fun seg hseg => by cases hseg⟩

/-! ## 4. Every act keeps the pace -/

theorem Paced.fresh (state : TcpState) (peer : SocketAddr) (isn : UInt32) (wnd : UInt16)
    (rcvNxt : UInt32) : (Tcb.fresh state peer isn wnd rcvNxt).Paced := by
  refine ⟨?_, fun _ => rfl, nofun, fun _ _ => rfl⟩
  show (isn + 1 - (isn + 1)).toNat ≤ 65535
  simp

theorem owed_fresh (state : TcpState) (peer : SocketAddr) (isn : UInt32) (wnd : UInt16)
    (rcvNxt : UInt32) : (Tcb.fresh state peer isn wnd rcvNxt).owed = 0 := by
  have hunsent : (Tcb.fresh state peer isn wnd rcvNxt).unsent = 0 := Nat.zero_sub _
  have hfin : (Tcb.fresh state peer isn wnd rcvNxt).finOwed = 0 := rfl
  unfold owed
  rw [hunsent, hfin]
  split <;> rfl

theorem Paced.abort (h : t.Paced) (reason : AbortReason) : (t.abort reason).Paced :=
  ⟨h.window, fun _ => rfl, h.shut, fun _ _ => rfl⟩

theorem Paced.shutWrite (h : t.Paced) : t.shutWrite.Paced := by
  refine ⟨h.window, fun hs => ?_, fun _ => rfl, fun _ hs => ?_⟩
  · refine h.opening ?_
    change t.state.onShutdown.handshake = true at hs
    revert hs
    cases t.state <;> decide
  · refine h.opening ?_
    change t.state.onShutdown.unshut = true at hs
    revert hs
    cases t.state <;> decide

theorem Paced.onSegment (h : t.Paced) {segs : List TcpSegment}
    (hs : t.onSegment recvCap loc rem s = .ok (t', segs)) : t'.Paced := by
  unfold Tcb.onSegment at hs
  split at hs
  · cases hs
    exact h.abort .reset
  · split at hs
    · rename_i hstate
      split at hs
      · cases hs
        exact h.congr rfl rfl rfl rfl rfl nofun fun _ => by rw [hstate]; rfl
      · cases hs
        exact h
    · rename_i hstate
      split at hs
      · split at hs
        · cases hs
          exact h
        · cases hs
          exact h.congr rfl rfl rfl rfl rfl nofun fun _ => by rw [hstate]; rfl
      · cases hs
        exact h
    · cases hs
      exact h
    · obtain ⟨⟨t1, sendAck⟩, h1, hs⟩ := bind_eq_ok.mp hs
      cases hs
      exact (h.handleEstablished h1).1

/-- **Every act on a control block keeps the pace.** -/
theorem Paced.act (h : t.Paced) {cfg : KernelConfig} {a : TcbAct} {segs : List TcpSegment}
    (ha : t.act cfg loc rem a = .ok (t', segs)) : t'.Paced := by
  cases a with
  | inbound s => exact h.onSegment ha
  | send buf =>
    cases ha
    have hcase := pollSend_case cfg.sendBufCap t buf
    generalize t.pollSend cfg.sendBufCap buf = r at hcase ⊢
    cases hcase with
    | accepted hlive hopen hstate hroom =>
      have hnofin : t.finSeq.isSome = false := by
        by_contra hf
        rw [Bool.not_eq_false] at hf
        rw [h.shut hf] at hopen
        cases hopen
      refine ⟨h.window, fun hs => ?_, h.shut, fun hf => ?_⟩
      · rcases hstate with hstate | hstate <;> rw [show ({ t with
          sendBuf := t.sendBuf ++ buf.take _ } : Tcb).state = t.state from rfl, hstate] at hs <;>
          cases hs
      · change t.finSeq.isSome = true at hf
        rw [hnofin] at hf
        cases hf
    | refused => exact h
  | shutdown =>
    cases ha
    rcases pollShutdownWrite_case t with ⟨heq, -, -⟩ | heq
    · rw [heq]
      exact h.shutWrite
    · rw [heq]
      exact h
  | recv lens =>
    cases ha
    have hcase := pollRecvVectored_case cfg.recvBufCap t lens
    generalize t.pollRecvVectored cfg.recvBufCap lens = r at hcase ⊢
    cases hcase <;> exact h.congr rfl rfl rfl rfl rfl (fun hs => hs) (fun hs => hs)
  | linger =>
    cases ha
    split
    · exact h
    · exact h.shutWrite
  | count =>
    cases ha
    obtain ⟨since, attempts, heq | heq⟩ := checkRetx_case cfg.retxThreshold cfg.retxMax t
    · rw [heq]
      exact h.congr rfl rfl rfl rfl rfl (fun hs => hs) (fun hs => hs)
    · rw [heq]
      refine ⟨?_, h.opening, h.shut, h.idle⟩
      show (t.sndUna - t.sndUna).toNat ≤ 65535
      simp
  | giveUp =>
    cases ha
    exact h.abort .timedOut
  | handshake =>
    obtain ⟨seg, -, ha⟩ := bind_eq_ok.mp ha
    cases ha
    exact h
  | segment mss => exact h.segmentLoop ha

end Tcb

/-! ## 5. The work of a kernel -/

def Socket.owed (st : Socket) : Nat :=
  match st.tcb with
  | some t => t.owed
  | none => 0

/-- What a segment can provoke: a SYN its SYN-ACK, a SYN-ACK or bytes or a FIN an acknowledgement,
an acknowledgement a RST, and a RST nothing. -/
def TcpSegment.weight (s : TcpSegment) : Nat :=
  if s.flags.syn && !s.flags.ack then 4
  else if s.flags.rst then 1
  else if s.flags.syn || s.flags.fin || !s.payload.isEmpty then 3
  else 2

def Packet.weight (pkt : Packet) : Nat :=
  match pkt.payload with
  | .tcp s => s.weight
  | .udp _ => 1

theorem TcpSegment.weight_pos (s : TcpSegment) : 1 ≤ s.weight := by
  unfold weight
  split
  · omega
  · split
    · omega
    · split <;> omega

theorem Packet.weight_pos (pkt : Packet) : 1 ≤ pkt.weight := by
  unfold weight
  split
  · exact TcpSegment.weight_pos _
  · exact Nat.le_refl 1

/-- An answer is only lost on a RST. -/
theorem TcpSegment.two_le_weight {s : TcpSegment} (h : s.flags.rst = false) : 2 ≤ s.weight := by
  unfold weight
  rw [h]
  split
  · omega
  · rw [if_neg Bool.false_ne_true]
    split <;> omega

theorem TcpSegment.three_le_weight {s : TcpSegment} (h : s.flags.rst = false)
    (hs : s.flags.syn = true ∨ s.payload ≠ [] ∨ s.flags.fin = true) : 3 ≤ s.weight := by
  unfold weight
  rw [h]
  split
  · omega
  · have hany : (s.flags.syn || s.flags.fin || !s.payload.isEmpty) = true := by
      rcases hs with hs | hs | hs <;> simp [hs]
    rewrite [if_neg Bool.false_ne_true, if_pos hany]
    exact Nat.le_refl 3

/-- A segment of `segment_one` weighs at most three. -/
theorem TcpSegment.weight_le_three {s : TcpSegment} (h : s.flags.syn = false) : s.weight ≤ 3 := by
  unfold weight
  rw [h]
  simp only [Bool.false_and, Bool.false_eq_true, if_false]
  split
  · omega
  · split <;> omega

namespace Kernel

def owed (k : Kernel) : Nat := k.sockets.sockets.total Socket.owed

/-- **What the drain can still do**: four for everything owed, and the weight of the queue. -/
def work (k : Kernel) : Nat := 4 * k.owed + (k.outbound.map Packet.weight).sum

variable {k k' : Kernel} {fd : Fd} {st : Socket} {t t' : Tcb} {loc rem : SocketAddr} {s : TcpSegment}

theorem owed_modifySocket (hst : k.lookup fd = some st) (f : Socket → Socket) :
    (k.modifySocket fd f).owed + st.owed = k.owed + (f st).owed :=
  IndexMap.total_modify hst f Socket.owed

/-- A change that adds nothing to what is owed. -/
theorem work_modifySocket_le (hst : k.lookup fd = some st) {f : Socket → Socket}
    (hle : (f st).owed ≤ st.owed) : (k.modifySocket fd f).work ≤ k.work := by
  have := owed_modifySocket hst f
  show 4 * (k.modifySocket fd f).owed + (k.outbound.map Packet.weight).sum ≤ _
  unfold work
  omega

theorem work_setTcb_le (hst : k.lookup fd = some st) (ht : st.tcb = some t) (hle : t'.owed ≤ t.owed) :
    (k.setTcb fd t').work ≤ k.work := by
  refine work_modifySocket_le hst ?_
  show t'.owed ≤ st.owed
  rw [Socket.owed, ht]
  exact hle

theorem work_emit (k : Kernel) (src dst : SocketAddr) (seg : TcpSegment) :
    (k.emit src dst seg).work = k.work + seg.weight := by
  show 4 * k.owed + ((k.outbound ++ [_]).map Packet.weight).sum = _
  rw [List.map_append, List.sum_append, work]
  simp only [List.map_cons, List.map_nil, List.sum_cons, List.sum_nil]
  show _ + (_ + (seg.weight + 0)) = _
  omega

theorem work_emitAll (src dst : SocketAddr) : ∀ (segs : List TcpSegment) (k : Kernel),
    (k.emitAll src dst segs).work = k.work + (segs.map TcpSegment.weight).sum
  | [], _ => rfl
  | seg :: segs, k => by
    rw [List.map_cons, List.sum_cons, ← Nat.add_assoc, ← work_emit k src dst seg]
    exact work_emitAll src dst segs (k.emit src dst seg)

/-- Every control block keeps the pace. -/
def Paced (k : Kernel) : Prop := ∀ fd c, k.conn? fd = some c → c.tcb.Paced

theorem Paced.step {σ : Scope} (hk : k.Paced) (h : KStep σ k k') : k'.Paced :=
  h.each (fun _ _ _ _ _ _ => .fresh ..) (fun _ _ _ _ _ _ ht ha => ht.act ha) hk

/-! ## 6. A delivery -/

/-- The call returns, or fails: no loop of it goes on for ever. -/
def Ends {α : Type} (x : Except Panic α) : Prop := x ≠ .error .diverges

theorem Ends.of_plain {α : Type} {x : Except Panic α} (h : Plain x) : Ends x := h.2

theorem Ends.bind {α β : Type} {x : Except Panic α} {f : α → Except Panic β} (hx : Ends x)
    (hf : ∀ a, x = .ok a → Ends (f a)) : Ends (x >>= f) := by
  intro h
  rcases bind_eq_error.mp h with h | ⟨a, ha, h⟩
  · exact hx h
  · exact hf a ha h

theorem work_pushToListener {child : Fd} (h : k.pushToListener child loc = .ok k') :
    k'.work ≤ k.work := by
  obtain ⟨o, -, h⟩ := bind_eq_ok.mp h
  cases o with
  | none =>
    cases h
    exact Nat.le_refl _
  | some g =>
    obtain ⟨st, hst, h⟩ := bind_eq_ok.mp h
    obtain ⟨_, -, h⟩ := bind_eq_ok.mp h
    cases h
    exact work_modifySocket_le (expect_eq_ok.mp hst) (Nat.le_refl _)

/-- A new child owes nothing, and its SYN-ACK weighs less than the SYN. -/
theorem work_acceptSyn {g : Fd} (h : k.acceptSyn g loc rem s = .ok k') : k'.work ≤ k.work + 3 := by
  obtain ⟨st, -, h⟩ := bind_eq_ok.mp h
  obtain ⟨l, -, h⟩ := bind_eq_ok.mp h
  split at h
  · cases h
    omega
  · obtain ⟨c, hc, h⟩ := bind_eq_ok.mp h
    obtain ⟨sockets, hs, h⟩ := bind_eq_ok.mp h
    unfold SocketTable.insertConnection at hs
    split at hs
    · cases hs
    · cases hs
      cases h
      rw [work_emit]
      refine Nat.add_le_add (Nat.add_le_add_right (Nat.mul_le_mul_left 4 ?_) _) (Nat.le_refl 3)
      have hnew := k.sockets.sockets.total_insert_le k.sockets.nextId (Socket.new st.domain st.ty)
        Socket.owed
      have hget : (k.sockets.sockets.insert k.sockets.nextId (Socket.new st.domain st.ty)).get?
          k.sockets.nextId = some (Socket.new st.domain st.ty) := by
        rw [IndexMap.get?_insert, if_pos rfl]
      have hmod := IndexMap.total_modify hget (fun c : Socket => { c with
        bound := some ⟨st.domain, st.ty, loc.ip, loc.port⟩
        peer := some rem
        tcb := some (Tcb.fresh .synReceived rem k.tcpIsn s.window (s.seq + 1)) }) Socket.owed
      have hchild : Socket.owed { Socket.new st.domain st.ty with
          bound := some ⟨st.domain, st.ty, loc.ip, loc.port⟩
          peer := some rem
          tcb := some (Tcb.fresh .synReceived rem k.tcpIsn s.window (s.seq + 1)) } = 0 :=
        Tcb.owed_fresh ..
      have hempty : (Socket.new st.domain st.ty).owed = 0 := rfl
      rw [hchild, hempty] at hmod
      rw [hempty] at hnew
      exact Nat.le_trans (Nat.le_of_eq hmod) hnew

/-- **A segment for a connection** is paid for by what it weighs. -/
theorem work_handleOnConnection (hk : k.Paced) (h : k.handleOnConnection fd loc rem s = .ok k') :
    k'.work + 1 ≤ k.work + s.weight := by
  have hweight := s.weight_pos
  unfold handleOnConnection at h
  split at h
  · obtain ⟨st, hst, h⟩ := bind_eq_ok.mp h
    cases h
    have := work_modifySocket_le (expect_eq_ok.mp hst)
      (f := fun st => { st with tcb := st.tcb.map (·.abort .reset) }) (by
        unfold Socket.owed
        cases st.tcb with
        | none => exact Nat.le_refl _
        | some t => exact Nat.zero_le _)
    omega
  · rename_i hrst
    rw [Bool.not_eq_true] at hrst
    obtain ⟨st, hst, h⟩ := bind_eq_ok.mp h
    obtain ⟨t, ht, h⟩ := bind_eq_ok.mp h
    replace hst := expect_eq_ok.mp hst
    replace ht := expect_eq_ok.mp ht
    have hp := hk fd _ (conn?_of_lookup hst ht)
    have hdata : k.handleEstablished fd loc rem t s = .ok k' → k'.work + 1 ≤ k.work + s.weight := by
      intro h
      obtain ⟨⟨t1, sendAck⟩, h1, h⟩ := bind_eq_ok.mp h
      obtain ⟨-, howed, hwhy⟩ := hp.handleEstablished h1
      have hset := work_setTcb_le hst ht howed
      cases sendAck with
      | false =>
        cases h
        rw [if_neg Bool.false_ne_true]
        omega
      | true =>
        have h3 := TcpSegment.three_le_weight hrst (Or.inr (hwhy rfl))
        cases h
        rw [if_pos rfl, work_emit]
        show _ + 2 + 1 ≤ _
        omega
    split at h
    · rename_i hstate
      split at h
      · rename_i hflags
        rw [Bool.and_eq_true] at hflags
        have h3 := TcpSegment.three_le_weight hrst (Or.inl hflags.1)
        have hset : (k.setTcb fd (t.onSynAck s)).work ≤ k.work := by
          refine work_setTcb_le hst ht (Tcb.owed_congr rfl rfl rfl rfl fun hs => ?_)
          rw [hstate] at hs
          rcases hs with hs | hs <;> cases hs
        cases h
        rw [work_emit]
        show _ + 2 + 1 ≤ _
        omega
      · cases h
        omega
    · rename_i hstate
      split at h
      · split at h
        · cases h
          omega
        · have hset : (k.setTcb fd (t.onHandshakeAck s)).work ≤ k.work := by
            refine work_setTcb_le hst ht (Tcb.owed_congr rfl rfl rfl rfl fun hs => ?_)
            rw [hstate] at hs
            rcases hs with hs | hs <;> cases hs
          have := work_pushToListener h
          omega
      · cases h
        omega
    all_goals first
      | exact hdata h
      | cases h
        omega

/-- **Every delivery decreases the work**, counting the packet that is delivered. -/
theorem work_deliver (hk : k.Paced) {pkt : Packet} (h : k.deliver pkt = .ok k') :
    k'.work + 1 ≤ k.work + pkt.weight := by
  unfold deliver at h
  unfold Packet.weight
  cases hp : pkt.payload with
  | udp d =>
    rw [hp] at h
    dsimp only at h ⊢
    unfold udpDeliver at h
    dsimp only at h
    split at h
    · cases h
      exact Nat.le_refl _
    · obtain ⟨st, hst, h⟩ := bind_eq_ok.mp h
      split at h
      · cases h
        exact Nat.le_refl _
      · cases h
        exact Nat.add_le_add_right (work_modifySocket_le (expect_eq_ok.mp hst) (Nat.le_refl _)) 1
  | tcp s =>
    rw [hp] at h
    dsimp only at h ⊢
    unfold tcpDeliver at h
    dsimp only at h
    have hreply : ∀ l r, (k.emitRst l r s).work = k.work + 1 := by
      intro l r
      unfold emitRst
      split
      exact work_emit ..
    split at h
    · exact work_handleOnConnection hk h
    · split at h
      · rename_i hsyn
        have h4 : s.weight = 4 := if_pos hsyn
        obtain ⟨o, -, h⟩ := bind_eq_ok.mp h
        cases o with
        | none =>
          cases h
          rw [hreply]
          omega
        | some g =>
          have := work_acceptSyn h
          omega
      · split at h
        · have := s.weight_pos
          cases h
          omega
        · rename_i hrst
          have := TcpSegment.two_le_weight (Bool.not_eq_true _ ▸ hrst)
          cases h
          rw [hreply]
          omega

theorem dropAcked_ends (buf : List UInt8) (d : UInt32) : Ends (Tcb.dropAcked buf d) := by
  unfold Tcb.dropAcked
  split
  · refine .bind ?_ fun _ _ h => by cases h
    unfold splitTo
    split <;> exact nofun
  · exact nofun

theorem handleEstablished_ends (k : Kernel) (fd : Fd) (loc rem : SocketAddr) (t : Tcb)
    (s : TcpSegment) : Ends (k.handleEstablished fd loc rem t s) := by
  refine .bind (.bind ?_ fun _ _ h => by cases h) fun _ _ h => by cases h
  unfold Tcb.onAck
  split
  · refine .bind ?_ fun _ _ h => by cases h
    unfold Tcb.takeAck
    dsimp only
    split
    · exact .bind (dropAcked_ends _ _) fun _ _ h => by cases h
    · exact nofun
  · exact nofun

/-- No loop is entered for a packet. -/
theorem deliver_ends (k : Kernel) (pkt : Packet) : Ends (k.deliver pkt) := by
  unfold deliver
  split
  · refine .of_plain ?_
    unfold udpDeliver
    dsimp only
    split
    · exact .ok _
    · refine .bind (.expect _ _) fun st _ => ?_
      split
      · exact .ok _
      · exact .ok _
  · rename_i s _
    unfold tcpDeliver
    dsimp only
    split
    · unfold handleOnConnection
      split
      · exact .of_plain (.bind (.expect _ _) fun _ _ => .ok _)
      · refine .bind (.of_plain (.expect _ _)) fun st _ =>
          .bind (.of_plain (.expect _ _)) fun t _ => ?_
        split
        · split <;> exact nofun
        · split
          · split
            · exact nofun
            · exact .of_plain (pushToListener_plain _ _ _)
          · exact nofun
        all_goals first
          | exact handleEstablished_ends k _ _ _ t s
          | exact nofun
    · split
      · refine .bind (.of_plain (firstListener_plain k _)) fun o _ => ?_
        cases o with
        | none => exact nofun
        | some listener => exact .of_plain (acceptSyn_plain _ _ _ _ _)
      · exact nofun

/-! ## 7. A pass -/

/-- The invariant of the drain: every control block keeps the pace, and the segment size is positive
wherever a connection sends from, and at every local address. -/
structure Draining (k : Kernel) : Prop where
  paced : k.Paced
  sourced : ∀ fd c loc, k.conn? fd = some c → c.loc? = some loc → 1 ≤ k.mssFor loc.ip
  hosted : ∀ ip, k.isLocal ip = true → 1 ≤ k.mssFor ip

theorem mssFor_congr (h : k'.cfg = k.cfg) (ip : IpAddr) : k'.mssFor ip = k.mssFor ip := by
  rw [mssFor, mssFor, h]

/-- A step keeps the invariant, if a new connection is set up at a good address. -/
theorem Draining.step {σ : Scope} (hσ : ∀ loc rem g, σ.opens loc rem g → 1 ≤ k.mssFor loc.ip)
    (hk : k.Draining) (h : KStep σ k k') : k'.Draining := by
  have hmss := mssFor_congr h.cfg.1
  refine ⟨hk.paced.step h, fun g c loc hg hloc => ?_, fun ip hip => ?_⟩
  · rw [hmss]
    cases h with
    | quiet h =>
      rw [h.conn] at hg
      exact hk.sourced g c loc hg hloc
    | act hc ha hin hq hl hclosed hfit =>
      rw [conn?_emitAll, conn?_putTcb hc] at hg
      split at hg
      · cases hg
        exact hk.sourced _ _ loc hc hloc
      · exact hk.sourced g c loc hg hloc
    | connect hst ht ho h =>
      rw [h.conn] at hg
      split at hg
      · cases hg
        cases h.endpoint.symm.trans hloc
        exact hσ _ _ _ ho
      · exact hk.sourced g c loc hg hloc
    | accept hnone hin hsyn ho hid h =>
      rw [h.conn] at hg
      split at hg
      · cases hg
        cases h.endpoint.symm.trans hloc
        exact hσ _ _ _ ho
      · exact hk.sourced g c loc hg hloc
    | remove hrm =>
      rw [conn?_removeSocket] at hg
      split at hg
      · cases hg
      · exact hk.sourced g c loc hg hloc
    | _ => exact hk.sourced g c loc hg hloc
  · rw [hmss]
    refine hk.hosted ip ?_
    rw [isLocal, ← h.cfg.2]
    exact hip

/-- The steps of the drain: connections are set up where the segment size is positive. -/
def drainScope (k : Kernel) : Scope :=
  ⟨fun _ _ _ => True, fun _ _ => True, fun loc _ _ => 1 ≤ k.mssFor loc.ip, fun _ => True⟩

theorem Draining.steps (hk : k.Draining) (h : KSteps k.drainScope k k') : k'.Draining := by
  have hstep : ∀ k1 k2 : Kernel, k1.Draining ∧ k1.cfg = k.cfg → KStep k.drainScope k1 k2 →
      k2.Draining ∧ k2.cfg = k.cfg := by
    intro k1 k2 hk1 h
    refine ⟨hk1.1.step (fun loc rem g hg => ?_) h, h.cfg.1.trans hk1.2⟩
    rw [mssFor_congr hk1.2]
    exact hg
  exact (h.invariant hstep ⟨hk, rfl⟩).1

/-- What `segment_one` sends weighs less than what is no longer owed for it. -/
theorem sum_weight_le {segs : List TcpSegment} (h : ∀ seg ∈ segs, seg.flags.syn = false) :
    (segs.map TcpSegment.weight).sum ≤ 3 * segs.length := by
  induction segs with
  | nil => exact Nat.le_refl _
  | cons seg segs ih =>
    obtain ⟨hseg, hsegs⟩ := List.forall_mem_cons.mp h
    have := ih hsegs
    have := TcpSegment.weight_le_three hseg
    rw [List.map_cons, List.sum_cons, List.length_cons]
    omega

/-- **`segment_one` returns**, unless an expectation fails, and its segments are paid for. -/
theorem segmentOne_ends (hk : k.Draining)
    (hwants : ∀ t, k.tcb? fd = some t → t.wantsSegment = true) :
    Ends (k.segmentOne fd) ∧ ∀ k', k.segmentOne fd = .ok k' → k'.work ≤ k.work := by
  have hloop : ∀ {st t loc}, k.lookup fd = some st → boundEndpoint st = .ok loc → st.tcb = some t →
      ∃ x segs, t.segmentLoop k.cfg.recvBufCap (k.mssFor loc.ip) loc (t.sendBuf.length + 2)
          = .ok ({ t with sndNxt := x }, segs)
        ∧ ({ t with sndNxt := x } : Tcb).owed + segs.length ≤ t.owed
        ∧ ∀ seg ∈ segs, seg.flags.rst = false ∧ seg.flags.syn = false := by
    intro st t loc hst hend ht
    have hconn := conn?_of_lookup hst ht
    obtain ⟨key, hkey, hend⟩ := bind_eq_ok.mp hend
    have hsource := hk.sourced fd _ loc hconn (by
      rw [Conn.loc?, expect_eq_ok.mp hkey]
      exact congrArg some (Except.ok.inj hend))
    have hstate := (Bool.and_eq_true_iff.mp (hwants t (tcb?_eq_some.mpr ⟨st, hst, ht⟩))).1
    refine Tcb.segmentLoop_ends hsource _ _ (hk.paced fd _ hconn) hstate ?_
    show t.sendBuf.length - _ + 2 ≤ _
    omega
  constructor
  · refine .bind (.of_plain (.expect _ _)) fun st hst => .bind (.of_plain (boundEndpoint_plain st))
      fun loc hend => .bind (.of_plain (.expect _ _)) fun t ht => ?_
    obtain ⟨x, segs, hl, -⟩ := hloop (expect_eq_ok.mp hst) hend (expect_eq_ok.mp ht)
    rw [hl]
    intro h
    cases h
  · intro k' h
    obtain ⟨st, hst, h⟩ := bind_eq_ok.mp h
    obtain ⟨loc, hend, h⟩ := bind_eq_ok.mp h
    obtain ⟨t, ht, h⟩ := bind_eq_ok.mp h
    replace hst := expect_eq_ok.mp hst
    replace ht := expect_eq_ok.mp ht
    obtain ⟨x, segs, hl, hpaid, hflags⟩ := hloop hst hend ht
    rw [hl] at h
    cases h
    rw [work_emitAll]
    have hsum := sum_weight_le fun seg hseg => (hflags seg hseg).2
    have howed : (k.setTcb fd { t with sndNxt := x }).owed + t.owed
        = k.owed + ({ t with sndNxt := x } : Tcb).owed := by
      have := owed_modifySocket hst fun st => { st with tcb := some { t with sndNxt := x } }
      rwa [show st.owed = t.owed by rw [Socket.owed, ht]] at this
    show 4 * (k.setTcb fd { t with sndNxt := x }).owed + (k.outbound.map Packet.weight).sum + _ ≤ _
    unfold work
    omega

/-- **Segmentation ends**, and adds nothing to the work. -/
theorem segmentAll_ends (hk : k.Draining) :
    Ends k.segmentAll ∧ ∀ k', k.segmentAll = .ok k' → k'.work ≤ k.work := by
  have hfold : ∀ {fds : List Fd} {k : Kernel}, k.Draining → fds.Nodup →
      (∀ fd ∈ fds, ∀ t, k.tcb? fd = some t → t.wantsSegment = true) →
      Ends (fds.foldlM segmentOne k) ∧ ∀ k', fds.foldlM segmentOne k = .ok k' → k'.work ≤ k.work := by
    intro fds
    induction fds with
    | nil =>
      intro k _ _ _
      refine ⟨nofun, fun k' h => ?_⟩
      cases h
      exact Nat.le_refl _
    | cons fd fds ih =>
      intro k hk hnodup hwants
      obtain ⟨hmem, hnodup⟩ := List.nodup_cons.mp hnodup
      have hone := segmentOne_ends hk (hwants fd List.mem_cons_self)
      -- what is left is as it was, for the sockets that are still to come
      have hrest : ∀ k1, k.segmentOne fd = .ok k1 → k1.Draining
          ∧ ∀ g ∈ fds, ∀ t, k1.tcb? g = some t → t.wantsSegment = true := by
        intro k1 h1
        obtain ⟨hstep, hother⟩ := segmentOne_step (σ := k.drainScope) (fun _ => trivial)
          (hwants fd List.mem_cons_self) h1
        refine ⟨hk.steps (.single hstep), fun g hg t ht => ?_⟩
        rw [hother g fun heq => hmem (heq ▸ hg)] at ht
        exact hwants g (List.mem_cons_of_mem fd hg) t ht
      constructor
      · refine hone.1.bind fun k1 h1 => ?_
        obtain ⟨hk1, hw1⟩ := hrest k1 h1
        exact (ih hk1 hnodup hw1).1
      · intro k' h
        obtain ⟨k1, h1, h⟩ := bind_eq_ok.mp h
        obtain ⟨hk1, hw1⟩ := hrest k1 h1
        exact Nat.le_trans ((ih hk1 hnodup hw1).2 k' h) (hone.2 k1 h1)
  refine hfold hk (k.nodup_candidates Tcb.wantsSegment) fun fd hfd t ht => ?_
  obtain ⟨st, t', hst, ht', hwants⟩ := mem_candidates.mp hfd
  cases ht.symm.trans (tcb?_eq_some.mpr ⟨st, hst, ht'⟩)
  exact hwants

theorem Draining.segmentAll (hk : k.Draining) (h : k.segmentAll = .ok k') : k'.Draining :=
  hk.steps (segmentAll_steps (fun _ _ _ _ => trivial) h)

theorem Draining.deliver (hk : k.Draining) {pkt : Packet} (hlocal : k.isLocal pkt.dst = true)
    (h : k.deliver pkt = .ok k') : k'.Draining :=
  hk.steps (deliver_steps (fun _ _ => trivial) (fun _ _ _ _ => hk.hosted pkt.dst hlocal) h)

/-- **The drain of the queue** does less work than the queue weighs. -/
theorem route_ends : ∀ {pkts : List Packet} {k : Kernel}, k.Draining → Ends (route k pkts)
    ∧ ∀ k' out, route k pkts = .ok (k', out) → k'.Draining
      ∧ k'.work + pkts.length ≤ k.work + (pkts.map Packet.weight).sum
  | [], k, hk => by
    refine ⟨fun h => (by cases h), fun k' out h => ?_⟩
    cases h
    exact ⟨hk, Nat.le_refl _⟩
  | pkt :: pkts, k, hk => by
    have hpos := pkt.weight_pos
    unfold route
    rw [List.map_cons, List.sum_cons, List.length_cons]
    split
    · rename_i hlocal
      constructor
      · exact (deliver_ends k pkt).bind fun k1 h1 => (route_ends (hk.deliver hlocal h1)).1
      · intro k' out h
        obtain ⟨k1, h1, h⟩ := bind_eq_ok.mp h
        have hdeliver := work_deliver hk.paced h1
        obtain ⟨hk', hwork⟩ := (route_ends (hk.deliver hlocal h1)).2 k' out h
        exact ⟨hk', by omega⟩
    · constructor
      · exact (route_ends hk).1.bind fun _ _ h => by cases h
      · intro k' out h
        obtain ⟨⟨k1, out1⟩, h1, h⟩ := bind_eq_ok.mp h
        cases h
        obtain ⟨hk', hwork⟩ := (route_ends hk).2 k' out1 h1
        exact ⟨hk', by omega⟩

/-! ## 8. The loop -/

/-- Taking the queue takes its weight off the work. -/
theorem work_drained (k : Kernel) : ({ k with outbound := [] } : Kernel).work
    + (k.outbound.map Packet.weight).sum = k.work :=
  rfl

theorem Draining.drained (hk : k.Draining) : ({ k with outbound := [] } : Kernel).Draining :=
  ⟨hk.paced, hk.sourced, hk.hosted⟩

/-- **The loop of `egress` ends** after no more passes than there is work, and more fuel changes
nothing: by induction on the work, which every pass that finds a packet decreases. -/
theorem egressLoop_ends : ∀ {n : Nat} {k : Kernel}, k.Draining → k.work < n →
    ∃ r, Ends r ∧ ∀ fuel, n ≤ fuel → egressLoop fuel k = r := by
  intro n
  induction n with
  | zero =>
    intro k _ hn
    omega
  | succ n ih =>
    intro k hk hn
    -- a turn of the loop, for any fuel that is left
    have hturn : ∀ fuel, n + 1 ≤ fuel → ∃ f, fuel = f + 1 ∧ n ≤ f := by
      intro fuel hfuel
      exact ⟨fuel - 1, by omega, by omega⟩
    obtain ⟨hends, hwork⟩ := segmentAll_ends hk
    cases h1 : k.segmentAll with
    | error e =>
      refine ⟨.error e, fun he => ?_, fun fuel hfuel => ?_⟩
      · cases he
        exact hends h1
      · obtain ⟨f, rfl, -⟩ := hturn fuel hfuel
        rw [egressLoop, h1]
        rfl
    | ok k1 =>
      have hk1 := hk.segmentAll h1
      have hless := hwork k1 h1
      by_cases hout : k1.outbound = []
      · refine ⟨.ok (k1, []), nofun, fun fuel hfuel => ?_⟩
        obtain ⟨f, rfl, -⟩ := hturn fuel hfuel
        rw [egressLoop, h1]
        show (if k1.outbound.isEmpty then _ else _) = _
        rw [hout]
        rfl
      · have hpos := List.length_pos_iff.mpr hout
        have hpass : ∀ f, egressLoop (f + 1) k = route { k1 with outbound := [] } k1.outbound >>=
            fun r => egressLoop f r.1 >>= fun r' => .ok (r'.1, r.2 ++ r'.2) := by
          intro f
          rw [egressLoop, h1]
          show (if k1.outbound.isEmpty then _ else _) = _
          rw [if_neg (by simpa using hout)]
          rfl
        obtain ⟨hroute, hleft⟩ := @route_ends k1.outbound _ hk1.drained
        cases h2 : route { k1 with outbound := [] } k1.outbound with
        | error e =>
          refine ⟨.error e, fun he => hroute (h2.trans he), fun fuel hfuel => ?_⟩
          obtain ⟨f, rfl, -⟩ := hturn fuel hfuel
          rw [hpass, h2]
          rfl
        | ok r =>
          obtain ⟨hk2, hdone⟩ := hleft r.1 r.2 h2
          have hqueue := work_drained k1
          obtain ⟨r', hr', hloop⟩ := ih hk2 (by omega)
          refine ⟨r' >>= fun r' => .ok (r'.1, r.2 ++ r'.2), hr'.bind fun _ _ => nofun,
            fun fuel hfuel => ?_⟩
          obtain ⟨f, rfl, hf⟩ := hturn fuel hfuel
          rw [hpass, h2]
          show egressLoop f r.1 >>= _ = _
          rw [hloop f hf]

/-! ## 9. Every reachable kernel -/

/-- An address of the host, or one that a connection of it sends from. -/
def SourceAddress (k : Kernel) (ip : IpAddr) : Prop :=
  k.isLocal ip = true ∨ ∃ fd c loc, k.conn? fd = some c ∧ c.loc? = some loc ∧ loc.ip = ip

/-- In every kernel that a run leads to, the control blocks keep the pace. -/
theorem run_paced (cfg : KernelConfig) (addrs : List IpAddr) {ops : List KernelOp}
    (hrun : (host cfg addrs).run ops = .ok k) : k.Paced := by
  have hstart : (host cfg addrs).Paced := by
    obtain ⟨as, has⟩ := host_eq cfg addrs
    rw [has]
    intro fd c h
    cases h
  have hstep : ∀ k k' : Kernel, k.Paced → KStep .any k k' → k'.Paced := fun _ _ hk h => hk.step h
  have hdrain : ∀ k : Kernel, k.Paced → ({ k with outbound := [] } : Kernel).Paced := fun _ hk => hk
  exact (run_invariant hstep hdrain (Sound.host cfg addrs) hstart hrun).2

/-- **`egress` terminates** in every kernel that calls, packets and turns of `egress` lead to, if
the MTUs leave room for a byte at every address segments are sent from: from some number of passes
on, the result is the same, and it is not that the loop goes on. -/
theorem egress_terminates (cfg : KernelConfig) (addrs : List IpAddr) (ops : List KernelOp)
    {k : Kernel} (hrun : (host cfg addrs).run ops = .ok k)
    (hmss : ∀ ip, k.SourceAddress ip → 1 ≤ k.mssFor ip) :
    ∃ passes r, r ≠ .error .diverges ∧ ∀ fuel, passes ≤ fuel → k.egress fuel = r := by
  have hk : k.Draining :=
    ⟨run_paced cfg addrs hrun, fun fd c loc hc hloc => hmss _ (Or.inr ⟨fd, c, loc, hc, hloc, rfl⟩),
      fun ip hip => hmss ip (Or.inl hip)⟩
  cases h1 : k.checkRetx with
  | error e =>
    refine ⟨0, .error e, fun he => ?_, fun fuel _ => ?_⟩
    · cases he
      exact (checkRetx_plain k).2 h1
    · rw [egress, h1]
      rfl
  | ok k1 =>
    have hk1 : k1.Draining := hk.steps
      (checkRetx_steps (fun _ _ _ _ => trivial) (fun _ _ _ _ _ => trivial) h1)
    obtain ⟨r, hr, hloop⟩ := egressLoop_ends hk1 (Nat.lt_succ_self _)
    refine ⟨k1.work + 1, r >>= fun r => .ok (r.1.reapClosed, r.2), hr.bind fun _ _ => nofun,
      fun fuel hfuel => ?_⟩
    rw [egress, h1]
    show egressLoop fuel k1 >>= _ = _
    rw [hloop fuel hfuel]
    rfl

/-- A host connects to itself, sends, and closes. -/
def selfOps : List KernelOp :=
  [.call (.bind ⟨.v4 0x7F000001, 80⟩ .stream), .call (.listen 1 8),
    .call (.openSocket .inet .stream), .call (.connect 2 ⟨.v4 0x7F000001, 80⟩), .egress 4,
    .call (.accept 1), .call (.send 2 [1, 2, 3]), .call (.shutdown 2), .call (.close 2)]

/-- Three bytes and a FIN are owed to itself. -/
theorem egress_terminates_self :
    ∃ k, (host .default [.v4 0x0A000001]).run selfOps = .ok k ∧ k.work = 28
      ∧ ∃ passes r, r ≠ .error .diverges ∧ ∀ fuel, passes ≤ fuel → k.egress fuel = r := by
  have hrun : ((host .default [.v4 0x0A000001]).run selfOps).toOption.map
      (fun k => (k.cfg, k.work)) = some (.default, 28) := by
    decide +kernel
  obtain ⟨k, hk, hfacts⟩ := Option.map_eq_some_iff.mp hrun
  obtain ⟨hcfg, hwork⟩ := Prod.mk.inj hfacts
  have hok := toOption_eq_some.mp hk
  refine ⟨k, hok, hwork, egress_terminates _ _ _ hok fun ip _ => ?_⟩
  rw [mssFor, hcfg]
  cases ip <;> split <;> exact Nat.le_of_ble_eq_true rfl

end Kernel

end Turmoil.Net
