/-
# What `segment_one` sends

For a control block that `segment_all` picks, the loop of `segment_one` sends the bytes that fit
the window, cut into pieces of at most one MSS, and then the FIN if it is due.  The loop computes
what is left from the wrapping counters in every turn; since the window has 16 bits they do not
wrap while it turns, and what is left shrinks by what was sent (`segmentLoop_spec`).

It does not shrink if the MSS is zero.  Nothing keeps an MTU from being smaller than the headers,
and then the loop sends empty segments for ever, if there is a byte to send and a window to send
it in.  `segments_iff` says that this is the only exception.
-/
import Turmoil.Net.Drain

namespace Turmoil.Net

/-! ## 1. The segments -/

/-- The segments carry these sequence numbers, one after the other. -/
def Consecutive : UInt32 → List TcpSegment → Prop
  | _, [] => True
  | seq, seg :: segs => seg.seq = seq ∧ Consecutive (seq + UInt32.ofNat seg.payload.length) segs

namespace Tcb

/-- The part of the window that is not in flight. -/
def windowLeft (t : Tcb) : Nat := t.sndWnd.toNat - t.inFlight.toNat

/-- What can be sent at once. -/
def sendable (t : Tcb) : Nat := min t.unsent t.windowLeft

/-- The control block after `n` more bytes were sent. -/
def advance (t : Tcb) (n : Nat) : Tcb := { t with sndNxt := t.sndNxt + UInt32.ofNat n }

/-- What the loop of `segment_one` is to send from `t`, and the control block it is to leave. -/
structure Segmented (recvCap mss : Nat) (loc : SocketAddr) (t t' : Tcb) (segs : List TcpSegment) :
    Prop where
  shape : ∃ data fins, segs = data ++ fins
    ∧ (∀ seg ∈ data, 1 ≤ seg.payload.length ∧ seg.payload.length ≤ mss ∧ seg.flags.fin = false)
    ∧ Consecutive t.sndNxt data
    ∧ (data.map (·.payload)).flatten = (t.sendBuf.drop t.inFlight.toNat).take t.sendable
    ∧ fins = (if (t.advance t.sendable).finPending ∧ 0 < (t.advance t.sendable).windowLeft
        then [(t.advance t.sendable).finSegment recvCap loc] else [])
    ∧ t' = (t.advance t.sendable).advance fins.length

variable {t t' : Tcb} {recvCap mss fuel : Nat} {loc : SocketAddr} {segs : List TcpSegment}

/-! ## 2. One turn -/

/-- While there is a window the counters do not wrap. -/
theorem inFlight_advance {n : Nat} (hn : n ≤ t.windowLeft) (hpos : 0 < t.windowLeft) :
    (t.advance n).inFlight.toNat = t.inFlight.toNat + n := by
  have hwnd : t.sndWnd.toNat ≤ 65535 := Nat.le_of_lt_succ t.sndWnd.toNat_lt
  unfold windowLeft at hn hpos
  exact inFlight_add (by omega)

theorem unsent_advance {n : Nat} (hn : n ≤ t.windowLeft) (hpos : 0 < t.windowLeft) :
    (t.advance n).unsent = t.unsent - n := by
  unfold unsent
  rw [inFlight_advance hn hpos]
  exact Nat.sub_add_eq ..

theorem windowLeft_advance {n : Nat} (hn : n ≤ t.windowLeft) (hpos : 0 < t.windowLeft) :
    (t.advance n).windowLeft = t.windowLeft - n := by
  unfold windowLeft
  rw [inFlight_advance hn hpos]
  exact Nat.sub_add_eq ..

theorem advance_advance (t : Tcb) (m n : Nat) : (t.advance m).advance n = t.advance (m + n) := by
  have : t.sndNxt + UInt32.ofNat m + UInt32.ofNat n = t.sndNxt + UInt32.ofNat (m + n) := by
    rw [UInt32.ofNat_add, UInt32.add_assoc]
  unfold advance
  rw [this]

theorem advance_zero (t : Tcb) : t.advance 0 = t := by
  have : t.sndNxt + UInt32.ofNat 0 = t.sndNxt := UInt32.add_zero _
  unfold advance
  rw [this]

/-- A turn that sends bytes. -/
theorem segmentStep_data (h : 0 < t.sendable) (recvCap mss : Nat) (loc : SocketAddr) :
    t.segmentStep recvCap mss loc = .ok (some (t.advance (min t.sendable mss),
      t.dataSegment recvCap loc
        ((t.sendBuf.drop t.inFlight.toNat).take (min t.sendable mss)))) := by
  have hsend : min (min (t.sendBuf.length - t.inFlight.toNat) mss)
      (t.sndWnd.toNat - t.inFlight.toNat) = min t.sendable mss := by
    unfold sendable unsent windowLeft
    omega
  have hboth : 0 < t.unsent ∧ 0 < t.windowLeft := by
    unfold sendable at h
    omega
  have hfits : t.inFlight.toNat + min t.sendable mss ≤ t.sendBuf.length := by
    have := hboth.1
    unfold sendable unsent at *
    omega
  unfold segmentStep
  dsimp only
  rw [if_pos (by simpa [unsent, windowLeft] using hboth), hsend, slice,
    if_pos ⟨Nat.le_add_right _ _, hfits⟩, Nat.add_sub_cancel_left]
  rfl

/-- A turn that sends the FIN. -/
theorem segmentStep_fin (h : t.sendable = 0) (hfin : t.finPending = true) (hpos : 0 < t.windowLeft) :
    t.segmentStep recvCap mss loc = .ok (some (t.advance 1, t.finSegment recvCap loc)) := by
  have hnone : ¬ (0 < t.unsent ∧ 0 < t.windowLeft) := by
    unfold sendable at h
    omega
  unfold segmentStep
  dsimp only
  rw [if_neg (by simpa [unsent, windowLeft] using hnone),
    if_pos (by simpa [windowLeft, hfin] using hpos)]
  rfl

/-- A turn that finds nothing to send. -/
theorem segmentStep_done (h : t.sendable = 0) (hfin : ¬ (t.finPending = true ∧ 0 < t.windowLeft)) :
    t.segmentStep recvCap mss loc = .ok none := by
  have hnone : ¬ (0 < t.unsent ∧ 0 < t.windowLeft) := by
    unfold sendable at h
    omega
  unfold segmentStep
  dsimp only
  rw [if_neg (by simpa [unsent, windowLeft] using hnone),
    if_neg (by simpa [windowLeft] using hfin)]
  rfl

/-! ## 3. The loop -/

/-- After the last byte: the FIN if it is due, and nothing more. -/
theorem segmentLoop_tail (h : t.sendable = 0) (hfuel : 2 ≤ fuel) :
    t.segmentLoop recvCap mss loc fuel
      = .ok (t.advance (if t.finPending ∧ 0 < t.windowLeft then 1 else 0),
        if t.finPending ∧ 0 < t.windowLeft then [t.finSegment recvCap loc] else []) := by
  obtain ⟨fuel, rfl⟩ : ∃ f, fuel = f + 2 := ⟨fuel - 2, by omega⟩
  by_cases hfin : t.finPending = true ∧ 0 < t.windowLeft
  · have hunsent : t.unsent = 0 := by
      unfold sendable at h
      omega
    have hidle : (t.advance 1).sendable = 0 := by
      unfold sendable
      rw [unsent_advance hfin.2 hfin.2, hunsent]
      exact Nat.zero_min _
    have hgone : (t.advance 1).finPending = false := by
      have hpending := hfin.1
      have hfs : (t.advance 1).finSeq = t.finSeq := rfl
      have hnxt : (t.advance 1).sndNxt = t.sndNxt + 1 := rfl
      unfold finPending at hpending ⊢
      rw [hfs, hnxt]
      cases hseq : t.finSeq with
      | none => rfl
      | some fs =>
        rw [hseq] at hpending
        refine beq_eq_false_iff_ne.mpr ?_
        rw [← eq_of_beq hpending]
        grind
    rw [if_pos hfin, if_pos hfin, segmentLoop_turn (segmentStep_fin h hfin.1 hfin.2),
      segmentLoop_idle (segmentStep_done hidle (by rw [hgone]; exact nofun))]
    rfl
  · rw [if_neg hfin, if_neg hfin, advance_zero, segmentLoop_idle (segmentStep_done h hfin)]

/-- **The loop sends what it is to send**, if every turn sends a byte. -/
theorem segmentLoop_spec (recvCap : Nat) (loc : SocketAddr) : ∀ {n : Nat} {t : Tcb}, t.sendable = n → 1 ≤ mss ∨ n = 0 →
    ∃ t' segs, Segmented recvCap mss loc t t' segs
      ∧ ∀ fuel, n + 2 ≤ fuel → t.segmentLoop recvCap mss loc fuel = .ok (t', segs) := by
  intro n
  induction n using Nat.strongRecOn with
  | ind n ih =>
    intro t hn hmss
    rcases Nat.eq_zero_or_pos n with rfl | hpos
    · refine ⟨_, _, ⟨[], if t.finPending ∧ 0 < t.windowLeft then [t.finSegment recvCap loc] else [],
        rfl, nofun, trivial, ?_, ?_, ?_⟩, fun fuel hfuel => segmentLoop_tail hn hfuel⟩
      · rw [hn]
        rfl
      · rw [hn, advance_zero]
      · rw [hn, advance_zero]
        by_cases hfin : t.finPending = true ∧ 0 < t.windowLeft
        · rw [if_pos hfin, if_pos hfin]
          rfl
        · rw [if_neg hfin, if_neg hfin]
          rfl
    · have hmss : 1 ≤ mss := by omega
      have hwnd : 0 < t.windowLeft := by
        unfold sendable at hn
        omega
      generalize hm : min t.sendable mss = m
      have hmwnd : m ≤ t.windowLeft := by
        unfold sendable at hm
        omega
      -- the rest, from where the first segment ends
      have hrest : (t.advance m).sendable = n - m := by
        unfold sendable
        rw [unsent_advance hmwnd hwnd, windowLeft_advance hmwnd hwnd]
        unfold sendable at hn
        omega
      obtain ⟨t', segs, ⟨data, fins, rfl, hdata, hseq, hbytes, hfins, ht'⟩, hloop⟩ :=
        ih (n - m) (by omega) hrest (by omega)
      rw [hrest, advance_advance t m (n - m), Nat.add_sub_cancel' (by omega)] at hfins ht'
      have hturn := segmentStep_data (t := t) (by omega) recvCap mss loc
      rw [hm] at hturn
      have hlen : ((t.sendBuf.drop t.inFlight.toNat).take m).length = m := by
        rw [List.length_take, List.length_drop]
        unfold sendable unsent at *
        omega
      refine ⟨t', _, ⟨t.dataSegment recvCap loc ((t.sendBuf.drop t.inFlight.toNat).take m) :: data,
        fins, rfl, ?_, ⟨rfl, ?_⟩, ?_, ?_, ?_⟩, fun fuel hfuel => ?_⟩
      · refine List.forall_mem_cons.mpr ⟨⟨?_, ?_, rfl⟩, hdata⟩
        · show 1 ≤ ((t.sendBuf.drop t.inFlight.toNat).take m).length
          omega
        · show ((t.sendBuf.drop t.inFlight.toNat).take m).length ≤ mss
          omega
      · show Consecutive
          (t.sndNxt + UInt32.ofNat ((t.sendBuf.drop t.inFlight.toNat).take m).length) data
        rw [hlen]
        exact hseq
      · rw [List.map_cons, List.flatten_cons, hbytes, hrest, inFlight_advance hmwnd hwnd]
        show (t.sendBuf.drop t.inFlight.toNat).take m
          ++ (t.sendBuf.drop (t.inFlight.toNat + m)).take (n - m) = _
        rw [hn, ← List.drop_drop, ← List.take_add, Nat.add_sub_cancel' (by omega)]
      · rw [hn]
        exact hfins
      · rw [hn]
        exact ht'
      · obtain ⟨fuel, rfl⟩ : ∃ f, fuel = f + 1 := ⟨fuel - 1, by omega⟩
        rw [segmentLoop_turn hturn, hloop fuel (by omega)]
        rfl

/-- With no room for a byte in a segment the loop goes on for ever. -/
theorem segmentLoop_diverges (h : 0 < t.sendable) :
    ∀ fuel, t.segmentLoop recvCap 0 loc fuel = .error .diverges := by
  intro fuel
  induction fuel with
  | zero => rfl
  | succ fuel ih =>
    have hturn := segmentStep_data h recvCap 0 loc
    rw [Nat.min_zero, advance_zero] at hturn
    rw [segmentLoop_turn hturn, ih]
    rfl

end Tcb

/-! ## 4. The kernel -/

namespace Kernel

variable {k k' : Kernel} {fd : Fd}

/-- `segment_one` returns, and emits what the control block is to send. -/
def SegmentsAll (k : Kernel) (fd : Fd) : Prop :=
  ∃ st t loc t' segs, k.lookup fd = some st ∧ st.tcb = some t ∧ boundEndpoint st = .ok loc
    ∧ t.Segmented k.cfg.recvBufCap (k.mssFor loc.ip) loc t' segs
    ∧ (∃ turns, ∀ fuel, turns ≤ fuel →
        t.segmentLoop k.cfg.recvBufCap (k.mssFor loc.ip) loc fuel = .ok (t', segs))
    ∧ k.segmentOne fd = .ok ((k.setTcb fd t').emitAll loc t.peer segs)

/-- The MTU leaves room for a byte, unless no byte can be sent anyway. -/
def ByteFits (k : Kernel) (fd : Fd) : Prop :=
  ∀ st t loc, k.lookup fd = some st → st.tcb = some t → boundEndpoint st = .ok loc →
    1 ≤ k.mssFor loc.ip ∨ t.sendable = 0

theorem segmentsAll_iff {st : Socket} {t : Tcb} {loc : SocketAddr} (hst : k.lookup fd = some st)
    (ht : st.tcb = some t) (hloc : boundEndpoint st = .ok loc) :
    k.SegmentsAll fd ↔ 1 ≤ k.mssFor loc.ip ∨ t.sendable = 0 := by
  constructor
  · rintro ⟨st', u, loc', t', segs, hst', hu, hloc', -, ⟨turns, hturns⟩, -⟩
    cases hst.symm.trans hst'
    cases ht.symm.trans hu
    cases hloc.symm.trans hloc'
    by_contra hno
    have hzero : k.mssFor loc.ip = 0 := by omega
    have hloop := hturns turns (Nat.le_refl _)
    rw [hzero, Tcb.segmentLoop_diverges (by omega)] at hloop
    cases hloop
  · intro hroom
    obtain ⟨t', segs, hsegs, hloop⟩ := Tcb.segmentLoop_spec k.cfg.recvBufCap loc rfl hroom
    refine ⟨st, t, loc, t', segs, hst, ht, hloc, hsegs, ⟨_, hloop⟩, ?_⟩
    have hfuel : t.sendable + 2 ≤ t.sendBuf.length + 2 := by
      unfold Tcb.sendable Tcb.unsent
      omega
    rw [segmentOne, hst]
    show boundEndpoint st >>= _ = _
    rw [hloc]
    show expect st.tcb "unwrap" >>= _ = _
    rw [ht]
    show t.segmentLoop k.cfg.recvBufCap (k.mssFor loc.ip) loc (t.sendBuf.length + 2) >>= _ = _
    rw [hloop _ hfuel]
    rfl

/-- A socket with a control block has an address to send from. -/
theorem Sound.endpoint (hk : k.Sound) {st : Socket} {t : Tcb} (hst : k.lookup fd = some st)
    (ht : st.tcb = some t) : ∃ loc, boundEndpoint st = .ok loc := by
  cases hb : st.bound with
  | none => exact absurd hb (hk.bound fd _ (conn?_of_lookup hst ht))
  | some key =>
    refine ⟨⟨key.localAddr, key.localPort⟩, ?_⟩
    rw [boundEndpoint, hb]
    rfl

/-- **What is sent, and when.**  In every kernel that calls, packets and turns of `egress` lead to,
and in every kernel a turn of `egress` goes through, `segment_one` sends for a socket that
`segment_all` picks what it is to send, if and only if the MTU leaves room for a byte or no byte
can be sent. -/
theorem segments_iff (cfg : KernelConfig) (addrs : List IpAddr) (ops : List KernelOp)
    {k₀ : Kernel} (hrun : (host cfg addrs).run ops = .ok k₀) (hturn : KSteps .any k₀ k)
    (hfd : fd ∈ k.candidates Tcb.wantsSegment) : k.SegmentsAll fd ↔ k.ByteFits fd := by
  have hstep : ∀ a b : Kernel, True → KStep .any a b → True := fun _ _ _ _ => trivial
  have hsound := (run_invariant hstep (fun _ _ => trivial) (Sound.host cfg addrs) trivial hrun).1
  obtain ⟨st, t, hst, ht, -⟩ := mem_candidates.mp hfd
  obtain ⟨loc, hloc⟩ := (hsound.steps hturn).endpoint hst ht
  rw [segmentsAll_iff hst ht hloc]
  constructor
  · intro hroom st' u loc' hst' hu hloc'
    cases hst.symm.trans hst'
    cases ht.symm.trans hu
    cases hloc.symm.trans hloc'
    exact hroom
  · exact fun hroom => hroom st t loc hst ht hloc

/-- A host whose packets are `mtu` bytes on the loopback connects to itself and sends a byte. -/
def byteToSelf (mtu : Nat) : Except Panic Kernel :=
  (host { KernelConfig.default with loopbackMtu := mtu } []).run
    [.call (.bind ⟨.v4 0x7F000001, 80⟩ .stream), .call (.listen 1 8),
      .call (.openSocket .inet .stream), .call (.connect 2 ⟨.v4 0x7F000001, 80⟩), .egress 4,
      .call (.send 2 [7])]

/-- The bytes socket 2 can send at once, and how many fit a segment. -/
def offers (k : Kernel) : Option (Nat × Nat) := do
  let st ← k.lookup 2
  let t ← st.tcb
  let loc ← (boundEndpoint st).toOption
  if t.wantsSegment then some (t.sendable, k.mssFor loc.ip) else none

theorem offers_eq_some {n mss : Nat} (h : k.offers = some (n, mss)) :
    ∃ st t loc, k.lookup 2 = some st ∧ st.tcb = some t ∧ boundEndpoint st = .ok loc
      ∧ 2 ∈ k.candidates Tcb.wantsSegment ∧ t.sendable = n ∧ k.mssFor loc.ip = mss := by
  obtain ⟨st, hst, h⟩ := Option.bind_eq_some_iff.mp h
  obtain ⟨t, ht, h⟩ := Option.bind_eq_some_iff.mp h
  obtain ⟨loc, hloc, h⟩ := Option.bind_eq_some_iff.mp h
  split at h
  · rename_i hwants
    cases h
    exact ⟨st, t, loc, hst, ht, toOption_eq_some.mp hloc, mem_candidates.mpr ⟨st, t, hst, ht, hwants⟩,
      rfl, rfl⟩
  · cases h

/-- With 41 bytes a packet there is room for the byte, and it is sent. -/
theorem segments_iff_one_byte : ∃ k, byteToSelf 41 = .ok k
    ∧ 2 ∈ k.candidates Tcb.wantsSegment ∧ k.SegmentsAll 2 := by
  have hrun : ((byteToSelf 41).toOption.bind offers) = some (1, 1) := by
    decide +kernel
  obtain ⟨k, hk, hoffers⟩ := Option.bind_eq_some_iff.mp hrun
  obtain ⟨st, t, loc, hst, ht, hloc, hfd, -, hmss⟩ := offers_eq_some hoffers
  refine ⟨k, toOption_eq_some.mp hk, hfd,
    (segments_iff _ _ _ (toOption_eq_some.mp hk) .refl hfd).mpr ?_⟩
  intro st' u loc' hst' hu hloc'
  cases hst.symm.trans hst'
  cases hloc.symm.trans hloc'
  exact Or.inl (Nat.le_of_eq hmss.symm)

/-- With 40 there is none, and `segment_one` sends empty segments for ever. -/
theorem no_room_for_a_byte : ∃ k, byteToSelf 40 = .ok k
    ∧ 2 ∈ k.candidates Tcb.wantsSegment ∧ ¬ k.SegmentsAll 2 := by
  have hrun : ((byteToSelf 40).toOption.bind offers) = some (1, 0) := by
    decide +kernel
  obtain ⟨k, hk, hoffers⟩ := Option.bind_eq_some_iff.mp hrun
  obtain ⟨st, t, loc, hst, ht, hloc, hfd, hsend, hmss⟩ := offers_eq_some hoffers
  refine ⟨k, toOption_eq_some.mp hk, hfd, ?_⟩
  rw [segmentsAll_iff hst ht hloc]
  omega

end Kernel

end Turmoil.Net
