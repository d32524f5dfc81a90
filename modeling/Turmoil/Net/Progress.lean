/-
# The two ends of a connection

What one end of a connection has sent, and what it has taken from the other, counted in bytes from
the start of the stream (`Progress`).  The counters of a control block are these positions, wrapped
(`Sends`, `Receives`), and a segment carries what stood at its position (`Regular`).

The point of counting from the start is that nothing has to be said about which packets are still
under way.  A segment that was right when it was sent stays right: the stream before a position does
not change, positions only grow (`Progress.Grows`), and a FIN is sent only when nothing comes after
it.  So loss, delay and reordering need no cases of their own, and neither does going back to
`snd_una`: the same positions are sent again.

An end looks at a segment only through numbers, and numbers tell positions apart while the stream is
shorter than `2 ^ 31`.  That is all a receiver relies on (`Receives.onData`), and with it what it
holds is always a prefix of what was sent.  Acknowledgements are followed as well: `snd_una` never
passes what the peer has taken.
-/
import Mathlib.Data.List.Infix
import Turmoil.Net.CloseStates

namespace Turmoil.Net

/-! ## 1. What has happened at an end -/

/-- What one end of a connection has sent, and what it has taken of the other's. -/
structure Progress where
  /-- Has it been set up? -/
  opened : Bool
  /-- The sequence number of its first byte. -/
  base : UInt32
  /-- What its application has handed over. -/
  sent : List UInt8
  /-- Has it shut its write side? -/
  shut : Bool
  /-- What its application has read. -/
  read : List UInt8
  /-- How many bytes of the other end it has taken. -/
  got : Nat
  /-- Has it taken the other end's FIN? -/
  gotFin : Bool

namespace Progress

/-- An end that is not set up. -/
def none : Progress := ⟨false, 0, [], false, [], 0, false⟩

/-- The position it expects next; the FIN has one too. -/
def next (g : Progress) : Nat := g.got + if g.gotFin then 1 else 0

/-- The position after everything it sends. -/
def limit (g : Progress) : Nat := g.sent.length + if g.shut then 1 else 0

/-- What can become of an end: nothing that happened is undone, and nothing follows a FIN. -/
structure Grows (g g' : Progress) : Prop where
  opened : g.opened = true → g'.opened = true ∧ g'.base = g.base
  sent : g.sent <+: g'.sent
  shut : g.shut = true → g'.shut = true ∧ g'.sent = g.sent
  got : g.got ≤ g'.got
  gotFin : g.gotFin = true → g'.gotFin = true ∧ g'.got = g.got

/-- What one end has taken is what the other has sent. -/
structure Took (g o : Progress) : Prop where
  got : g.got ≤ o.sent.length
  fin : g.gotFin = true → o.shut = true ∧ g.got = o.sent.length
  read : g.read <+: o.sent.take g.got

variable {g g' g'' o o' : Progress}

theorem Grows.refl (g : Progress) : g.Grows g :=
  ⟨fun h => ⟨h, rfl⟩, List.prefix_rfl, fun h => ⟨h, rfl⟩, Nat.le_refl _, fun h => ⟨h, rfl⟩⟩

theorem Grows.trans (h : g.Grows g') (h' : g'.Grows g'') : g.Grows g'' where
  opened hg := by
    obtain ⟨h1, h2⟩ := h.opened hg
    obtain ⟨h3, h4⟩ := h'.opened h1
    exact ⟨h3, h4.trans h2⟩
  sent := h.sent.trans h'.sent
  shut hg := by
    obtain ⟨h1, h2⟩ := h.shut hg
    obtain ⟨h3, h4⟩ := h'.shut h1
    exact ⟨h3, h4.trans h2⟩
  got := Nat.le_trans h.got h'.got
  gotFin hg := by
    obtain ⟨h1, h2⟩ := h.gotFin hg
    obtain ⟨h3, h4⟩ := h'.gotFin h1
    exact ⟨h3, h4.trans h2⟩

theorem Grows.next_le (h : g.Grows g') : g.next ≤ g'.next := by
  have hgot := h.got
  unfold next
  cases hfin : g.gotFin with
  | false =>
    rw [if_neg Bool.false_ne_true]
    omega
  | true =>
    obtain ⟨h1, h2⟩ := h.gotFin hfin
    rewrite [h1, h2]
    exact Nat.le_refl _

/-- What was sent before a position does not change. -/
theorem Grows.take_eq (h : g.Grows g') {n : Nat} (hn : n ≤ g.sent.length) :
    g'.sent.take n = g.sent.take n := by
  obtain ⟨more, hmore⟩ := h.sent
  rw [← hmore, List.take_append_of_le_length hn]

theorem Took.mono (h : g.Took o) (ho : o.Grows o') : g.Took o' where
  got := Nat.le_trans h.got ho.sent.length_le
  fin hg := by
    obtain ⟨h1, h2⟩ := h.fin hg
    obtain ⟨h3, h4⟩ := ho.shut h1
    exact ⟨h3, by rw [h4]; exact h2⟩
  read := by
    rw [ho.take_eq h.got]
    exact h.read

theorem Took.next_le (h : g.Took o) : g.next ≤ o.limit := by
  have hgot := h.got
  unfold next limit
  cases hfin : g.gotFin with
  | false =>
    rw [if_neg Bool.false_ne_true]
    omega
  | true =>
    obtain ⟨h1, h2⟩ := h.fin hfin
    rewrite [h1, h2]
    exact Nat.le_refl _

/-- An end that has taken nothing. -/
theorem Took.of_nothing (hgot : g.got = 0) (hfin : g.gotFin = false) (hread : g.read = []) :
    g.Took o where
  got := by rw [hgot]; exact Nat.zero_le _
  fin h := by rw [hfin] at h; cases h
  read := by rw [hread]; exact List.nil_prefix

end Progress

/-! ## 2. Segments -/

namespace TcpSegment

/-- A segment of an end, other than a RST, is right about its own stream and about the other's. -/
structure Regular (g o : Progress) (s : TcpSegment) : Prop where
  opened : g.opened = true
  syn : s.flags.syn = true → s.seq + 1 = g.base
  data : s.payload ≠ [] → ∃ p, s.seq = serial g.base p ∧ s.payload <+: g.sent.drop p
  fin : s.flags.fin = true →
    g.shut = true ∧ s.payload = [] ∧ s.seq = serial g.base g.sent.length
  ack : s.flags.ack = true → o.opened = true ∧ ∃ w, w ≤ g.next ∧ s.ack = serial o.base w

/-- What an end can send. -/
def Fine (g o : Progress) (s : TcpSegment) : Prop :=
  (s.flags.rst = true ∧ s.flags.syn = false) ∨ (s.flags.rst = false ∧ s.Regular g o)

variable {g g' o o' : Progress} {s : TcpSegment}

/-- **A segment under way stays right.** -/
theorem Regular.mono (h : s.Regular g o) (hg : g.Grows g') (ho : o.Grows o') : s.Regular g' o' := by
  obtain ⟨hopen, hbase⟩ := hg.opened h.opened
  refine ⟨hopen, fun hs => ?_, fun hs => ?_, fun hs => ?_, fun hs => ?_⟩
  · rw [hbase]
    exact h.syn hs
  · obtain ⟨p, h1, h2⟩ := h.data hs
    rw [hbase]
    exact ⟨p, h1, h2.trans (List.IsPrefix.drop hg.sent p)⟩
  · obtain ⟨h1, h2, h3⟩ := h.fin hs
    obtain ⟨h4, h5⟩ := hg.shut h1
    rw [hbase, h5]
    exact ⟨h4, h2, h3⟩
  · obtain ⟨h1, w, h2, h3⟩ := h.ack hs
    obtain ⟨h4, h5⟩ := ho.opened h1
    rw [h5]
    exact ⟨h4, w, Nat.le_trans h2 hg.next_le, h3⟩

theorem Fine.mono (h : s.Fine g o) (hg : g.Grows g') (ho : o.Grows o') : s.Fine g' o' :=
  h.imp id fun h => ⟨h.1, h.2.mono hg ho⟩

/-- The position of a byte that was sent. -/
theorem Regular.position (h : s.Regular g o) (hs : s.payload ≠ []) :
    ∃ p, s.seq = serial g.base p ∧ p + s.payload.length ≤ g.sent.length
      ∧ s.payload <+: g.sent.drop p := by
  obtain ⟨p, h1, h2⟩ := h.data hs
  have hlen := h2.length_le
  have hpos := List.length_pos_iff.mpr hs
  rw [List.length_drop] at hlen
  exact ⟨p, h1, by omega, h2⟩

end TcpSegment

namespace Tcb

/-! ## 3. The sending side -/

/-- The sending side of a control block: `u` is the first position that is not acknowledged, and
`n` of them are in flight. -/
structure Sends (g : Progress) (t : Tcb) (u n : Nat) : Prop where
  una : t.sndUna = serial g.base u
  nxt : t.sndNxt = serial g.base (u + n)
  buf : t.sendBuf = g.sent.drop u
  closed : t.wrClosed = g.shut
  fin : t.finSeq = if g.shut then some (serial g.base g.sent.length) else none
  within : u + n ≤ g.limit
  opening : t.state.handshake = true → u = 0
  finished : t.state = .finWait2 ∨ t.state = .closed → g.shut = true ∧ u = g.sent.length + 1

variable {g g' o : Progress} {t t' : Tcb} {s : TcpSegment} {u n : Nat}

/-- The invariant does not read what a peer sent, nor the timers. -/
theorem Sends.congr (h : t.Sends g u n) (h1 : t'.sndNxt = t.sndNxt) (h2 : t'.sndUna = t.sndUna)
    (h3 : t'.sendBuf = t.sendBuf) (h4 : t'.wrClosed = t.wrClosed) (h5 : t'.finSeq = t.finSeq)
    (h6 : t'.state.handshake = true → t.state.handshake = true)
    (h7 : t'.state = .finWait2 ∨ t'.state = .closed → t.state = .finWait2 ∨ t.state = .closed) :
    t'.Sends g u n where
  una := by rw [h2]; exact h.una
  nxt := by rw [h1]; exact h.nxt
  buf := by rw [h3]; exact h.buf
  closed := by rw [h4]; exact h.closed
  fin := by rw [h5]; exact h.fin
  within := h.within
  opening hs := h.opening (h6 hs)
  finished hs := h.finished (h7 hs)

/-- It reads only what was sent. -/
theorem Sends.of_taken (h : t.Sends g u n) (got : Nat) (gotFin : Bool) :
    t.Sends { g with got := got, gotFin := gotFin } u n :=
  ⟨h.una, h.nxt, h.buf, h.closed, h.fin, h.within, h.opening, h.finished⟩

theorem Sends.of_open (h : t.Sends g u n) (hopen : g.shut = false) : u + n ≤ g.sent.length := by
  have := h.within
  rwa [Progress.limit, hopen, if_neg Bool.false_ne_true] at this

theorem Sends.length_sendBuf (h : t.Sends g u n) : t.sendBuf.length = g.sent.length - u := by
  rw [h.buf, List.length_drop]

/-- A configuration that leaves room for what is sent and held. -/
def roomy (t : Tcb) : KernelConfig :=
  { KernelConfig.default with sendBufCap := 2 ^ 31, recvBufCap := t.recvBuf.length }

theorem roomy_cap (t : Tcb) : t.roomy.sendBufCap < 2 ^ 32 - 1 := by
  show 2 ^ 31 < 2 ^ 32 - 1
  omega

/-- Counted from `snd_una`, the positions are those of `SeqSpace`. -/
theorem Sends.seqSpace (h : t.Sends g u n) (hlen : g.sent.length < 2 ^ 31) :
    t.SeqSpace t.roomy n := by
  have hwithin := h.within
  have hbuf := h.length_sendBuf
  refine ⟨?_, ?_, Nat.le_refl _, fun hw => ?_, fun hw => ?_⟩
  · rw [h.una, serial_serial]
    exact h.nxt
  · show t.sendBuf.length ≤ 2 ^ 31
    omega
  · have hopen : g.shut = false := h.closed.symm.trans hw
    have hle := h.of_open hopen
    refine ⟨by rw [h.fin, hopen, if_neg Bool.false_ne_true], ?_⟩
    omega
  · have hshut : g.shut = true := h.closed.symm.trans hw
    rw [Progress.limit, hshut, if_pos rfl] at hwithin
    rw [h.fin, hshut, if_pos rfl, h.una]
    by_cases hu : u ≤ g.sent.length
    · left
      rw [serial_serial, hbuf, Nat.add_sub_cancel' hu]
      exact ⟨rfl, by omega⟩
    · right
      have hu : u = g.sent.length + 1 := by omega
      rw [hu, serial_sub_one]
      refine ⟨rfl, ?_, by omega⟩
      rw [h.buf, List.drop_eq_nil_iff]
      omega

/-- What an acknowledgement leaves alone. -/
structure SameReceiver (t t' : Tcb) : Prop where
  recvBuf : t'.recvBuf = t.recvBuf
  rcvNxt : t'.rcvNxt = t.rcvNxt
  peerFin : t'.peerFin = t.peerFin
  aborted : t'.aborted = t.aborted
  state : t'.state = t.state ∨ t'.state = t.state.onFinAcked

/-- **The acknowledgement of a right segment** moves `snd_una` to a position the peer has taken. -/
theorem Sends.onAck (h : t.Sends g u n) (hlen : g.sent.length < 2 ^ 31) (hacked : u ≤ o.next)
    (htook : o.next ≤ g.limit) (hpast : t.state.handshake = false) (hs : s.Regular o g) :
    ∃ t' u' n', t.onAck s = .ok t' ∧ t'.Sends g u' n' ∧ u' ≤ o.next ∧ SameReceiver t t' := by
  have hwithin := h.within
  have hbuf := h.length_sendBuf
  have hlimit : g.limit ≤ g.sent.length + 1 := by
    unfold Progress.limit
    split <;> omega
  obtain ⟨t', ht', hcase⟩ := (h.seqSpace hlen).onAck t.roomy_cap s
  -- the position that is acknowledged, and the one the peer had reached, have the same number
  have hpos : ∀ a, a ≤ n → s.flags.ack = true → s.ack = serial t.sndUna a → u + a ≤ o.next := by
    intro a ha hack hsack
    obtain ⟨-, w, hw, hsw⟩ := hs.ack hack
    rw [h.una, serial_serial] at hsack
    have := (serial_inj (by omega) (by omega)).mp (hsack.symm.trans hsw)
    omega
  refine ⟨t', ?_⟩
  cases hcase with
  | silent => exact ⟨u, n, ht', h, hacked, rfl, rfl, rfl, rfl, Or.inl rfl⟩
  | stale =>
    exact ⟨u, n, ht', h.congr rfl rfl rfl rfl rfl id id, hacked, rfl, rfl, rfl, rfl, Or.inl rfl⟩
  | data a hack hapos hle hal hsack =>
    refine ⟨u + a, n - a, ht', ?_, hpos a hle hack hsack, rfl, rfl, rfl, rfl, Or.inl rfl⟩
    refine ⟨?_, ?_, ?_, h.closed, h.fin, by omega, fun hst => ?_, fun hst => ?_⟩
    · show serial t.sndUna a = _
      rw [h.una, serial_serial]
    · rw [show u + a + (n - a) = u + n by omega]
      exact h.nxt
    · show t.sendBuf.drop a = _
      rw [h.buf, List.drop_drop]
    · change t.state.handshake = true at hst
      rw [hpast] at hst
      cases hst
    · have := (h.finished hst).2
      omega
  | fin hack hsack hn hw hfin =>
    have hshut : g.shut = true := h.closed.symm.trans hw
    rw [Progress.limit, hshut, if_pos rfl] at hwithin
    have hu : u + (t.sendBuf.length + 1) = g.sent.length + 1 := by omega
    refine ⟨g.sent.length + 1, 0, ht', ?_, ?_, rfl, rfl, rfl, rfl, Or.inr rfl⟩
    · refine ⟨?_, ?_, ?_, h.closed, h.fin, ?_, fun hst => ?_, fun _ => ⟨hshut, rfl⟩⟩
      · show serial t.sndUna (t.sendBuf.length + 1) = _
        rw [h.una, serial_serial, hu]
      · rw [Nat.add_zero, ← hu, ← hn]
        exact h.nxt
      · show [] = _
        rw [eq_comm, List.drop_eq_nil_iff]
        omega
      · rewrite [Progress.limit, hshut, if_pos rfl]
        exact Nat.le_refl _
      · exact absurd hst (Bool.eq_false_iff.mp (TcpState.not_handshake_onFinAcked hpast))
    · rw [← hu]
      exact hpos _ (Nat.le_of_eq hn.symm) hack hsack

/-! ## 4. The receiving side -/

/-- The receiving side of a control block: what was taken is what was read and what is held. -/
structure Receives (g o : Progress) (t : Tcb) : Prop where
  waiting : t.state = .synSent → g.got = 0 ∧ g.gotFin = false
  next : t.state ≠ .synSent → o.opened = true ∧ t.rcvNxt = serial o.base g.next
  held : g.read ++ t.recvBuf = o.sent.take g.got
  peerFin : t.peerFin = g.gotFin
  heard : t.state = .closeWait ∨ t.state = .closing ∨ t.state = .lastAck ∨ t.state = .closed →
    g.gotFin = true

/-- It reads the receiving side, and which states were left. -/
theorem Receives.congr (h : t.Receives g o) (h1 : t'.recvBuf = t.recvBuf)
    (h2 : t'.rcvNxt = t.rcvNxt) (h3 : t'.peerFin = t.peerFin)
    (h4 : t'.state = .synSent ↔ t.state = .synSent)
    (h5 : t'.state = .closeWait ∨ t'.state = .closing ∨ t'.state = .lastAck ∨ t'.state = .closed →
      g.gotFin = true) : t'.Receives g o where
  waiting hs := h.waiting (h4.mp hs)
  next hs := by
    rw [h2]
    exact h.next fun hs' => hs (h4.mpr hs')
  held := by rw [h1]; exact h.held
  peerFin := by rw [h3]; exact h.peerFin
  heard := h5

/-- The other end goes on. -/
theorem Receives.mono {o' : Progress} (h : t.Receives g o) (htook : g.Took o) (ho : o.Grows o') :
    t.Receives g o' where
  waiting := h.waiting
  next hs := by
    obtain ⟨h1, h2⟩ := h.next hs
    obtain ⟨h3, h4⟩ := ho.opened h1
    exact ⟨h3, by rw [h4]; exact h2⟩
  held := by
    rw [ho.take_eq htook.got]
    exact h.held
  peerFin := h.peerFin
  heard := h.heard

theorem Receives.onFinAcked (h : t.Receives g o) (hsame : SameReceiver t t') : t'.Receives g o := by
  refine h.congr hsame.recvBuf hsame.rcvNxt hsame.peerFin ?_ ?_
  · rcases hsame.state with hs | hs <;> rw [hs]
    cases t.state <;> decide
  · intro hs'
    refine h.heard ?_
    rcases hsame.state with hs | hs <;> rw [hs] at hs'
    · exact hs'
    · revert hs'
      cases t.state <;> decide

theorem ne_synSent {st : TcpState} (h : st.handshake = false) : st ≠ .synSent := by
  rintro rfl
  cases h

/-- **The payload of a right segment** is taken where the stream goes on. -/
theorem Receives.onData (h : t.Receives g o) (hlen : o.sent.length < 2 ^ 31) (htook : g.Took o)
    (hpast : t.state.handshake = false) (hs : s.Regular o g) (recvCap : Nat) :
    ∃ got, (t.onData recvCap s).1.Receives { g with got := got } o
      ∧ ({ g with got := got } : Progress).Took o ∧ g.Grows { g with got := got } := by
  have hcase := onData_case recvCap t s
  generalize t.onData recvCap s = r at hcase ⊢
  cases hcase with
  | ignored => exact ⟨g.got, h, htook, .refl g⟩
  | taken m hm hpos hseq hopen =>
    have hfin : g.gotFin = false := h.peerFin.symm.trans hopen
    have hne : s.payload ≠ [] := by
      intro hnil
      rw [hm, hnil] at hpos
      simp at hpos
    obtain ⟨hopened, hnext⟩ := h.next (ne_synSent hpast)
    have hgot : g.next = g.got := by
      rw [Progress.next, hfin, if_neg Bool.false_ne_true, Nat.add_zero]
    rw [hgot] at hnext
    obtain ⟨p, hp, hple, hpre⟩ := hs.position hne
    have hle := htook.got
    have hpg : p = g.got := (serial_inj (by omega) (by omega)).mp
      (hp.symm.trans (hseq.trans hnext))
    rw [hpg] at hple hpre
    have hm' : m ≤ s.payload.length := by omega
    -- the bytes taken are the next ones of the stream
    have hbytes : s.payload.take m = (o.sent.drop g.got).take m := by
      obtain ⟨more, hmore⟩ := hpre
      rw [← hmore, List.take_append_of_le_length hm']
    have htake : o.sent.take g.got ++ (o.sent.drop g.got).take m = o.sent.take (g.got + m) :=
      (List.take_add).symm
    refine ⟨g.got + m, ⟨fun hs => absurd hs (ne_synSent hpast), fun _ => ⟨hopened, ?_⟩, ?_,
      h.peerFin, h.heard⟩,
      ⟨?_, fun hf => ?_, ?_⟩, ⟨fun h => ⟨h, rfl⟩, List.prefix_rfl, fun h => ⟨h, rfl⟩,
      Nat.le_add_right _ _, fun hf => ?_⟩⟩
    · show t.rcvNxt + UInt32.ofNat m = _
      rw [hnext, serial_add, Progress.next, hfin, if_neg Bool.false_ne_true, Nat.add_zero]
    · show g.read ++ (t.recvBuf ++ s.payload.take m) = _
      rw [← List.append_assoc, h.held, hbytes, htake]
    · show g.got + m ≤ _
      omega
    · change g.gotFin = true at hf
      rw [hfin] at hf
      cases hf
    · show g.read <+: o.sent.take (g.got + m)
      rw [← htake]
      exact htook.read.trans (List.prefix_append _ _)
    · rw [hfin] at hf
      cases hf

/-- **The FIN of a right segment** is taken at the end of the stream. -/
theorem Receives.onFin (h : t.Receives g o) (hlen : o.sent.length < 2 ^ 31) (htook : g.Took o)
    (hpast : t.state.handshake = false) (hs : s.Regular o g) :
    ∃ gotFin, (t.onFin s).1.Receives { g with gotFin := gotFin } o
      ∧ ({ g with gotFin := gotFin } : Progress).Took o ∧ g.Grows { g with gotFin := gotFin } := by
  have hcase := onFin_case t s
  generalize t.onFin s = r at hcase ⊢
  cases hcase with
  | ignored => exact ⟨g.gotFin, h, htook, .refl g⟩
  | taken hflag hopen hseq =>
    have hfin : g.gotFin = false := h.peerFin.symm.trans hopen
    obtain ⟨hopened, hnext⟩ := h.next (ne_synSent hpast)
    obtain ⟨hshut, hnil, hend⟩ := hs.fin hflag
    have hle := htook.got
    rw [hnil, List.length_nil, hend, serial_add, Nat.add_zero, hnext, Progress.next, hfin,
      if_neg Bool.false_ne_true, Nat.add_zero] at hseq
    have hgot : o.sent.length = g.got := (serial_inj (by omega) (by omega)).mp hseq
    refine ⟨true, ⟨fun hs => ?_, fun _ => ⟨hopened, ?_⟩, h.held, rfl, fun _ => rfl⟩,
      ⟨hle, fun _ => ⟨hshut, hgot.symm⟩, htook.read⟩, ⟨fun h => ⟨h, rfl⟩, List.prefix_rfl,
      fun h => ⟨h, rfl⟩, Nat.le_refl _, fun _ => ⟨rfl, rfl⟩⟩⟩
    · exact absurd hs (ne_synSent (TcpState.not_handshake_onPeerFin hpast))
    · show t.rcvNxt + 1 = _
      rw [hnext, serial_add_one, Progress.next, Progress.next, hfin]
      rfl

/-! ## 5. A segment that arrives -/

/-- The control block of an end, aborted or not. -/
structure Tracks (g o : Progress) (t : Tcb) : Prop where
  aborted : t.aborted = true → t.state = .closed
  live : t.aborted = false → ∃ u n, t.Sends g u n ∧ u ≤ o.next ∧ t.Receives g o

/-- The other end goes on. -/
theorem Tracks.mono {o' : Progress} (h : t.Tracks g o) (htook : g.Took o) (ho : o.Grows o') :
    t.Tracks g o' where
  aborted := h.aborted
  live hlive := by
    obtain ⟨u, n, hsend, hle, hrecv⟩ := h.live hlive
    exact ⟨u, n, hsend, Nat.le_trans hle ho.next_le, hrecv.mono htook ho⟩

/-- An aborted control block tells nothing. -/
theorem Tracks.of_aborted (h1 : t.aborted = true) (h2 : t.state = .closed) : t.Tracks g o :=
  ⟨fun _ => h2, fun h => absurd (h.symm.trans h1) Bool.false_ne_true⟩

theorem Tracks.abort (reason : AbortReason) (t : Tcb) : (t.abort reason).Tracks g o := by
  refine .of_aborted ?_ rfl
  cases reason with
  | reset => rfl
  | timedOut => exact Bool.or_true _

theorem Tracks.of_live {u n : Nat} (h : t.aborted = false) (hsend : t.Sends g u n)
    (hle : u ≤ o.next) (hrecv : t.Receives g o) : t.Tracks g o :=
  ⟨fun h' => absurd (h.symm.trans h') Bool.false_ne_true, fun _ => ⟨u, n, hsend, hle, hrecv⟩⟩

theorem Tracks.live_of_state (h : t.Tracks g o) (hs : t.state ≠ .closed) : t.aborted = false := by
  cases ha : t.aborted with
  | false => rfl
  | true => exact absurd (h.aborted ha) hs

/-- What a segment changes of the end it arrives at: what it has taken. -/
structure Hears (g g' o : Progress) : Prop where
  same : g' = { g with got := g'.got, gotFin := g'.gotFin }
  grows : g.Grows g'
  took : g'.Took o

theorem Hears.refl (h : g.Took o) : Hears g g o := ⟨rfl, .refl g, h⟩

/-- The segment that only acknowledges. -/
theorem Receives.ackSegment (h : t.Receives g o) (hopened : g.opened = true)
    (hpast : t.state ≠ .synSent) (recvCap : Nat) (loc rem : SocketAddr) :
    (t.ackSegment recvCap loc rem).Fine g o := by
  obtain ⟨hother, hnext⟩ := h.next hpast
  exact Or.inr ⟨rfl, hopened, nofun, fun h => absurd rfl h, nofun,
    fun _ => ⟨hother, g.next, Nat.le_refl _, hnext⟩⟩

theorem Sends.onData (h : t.Sends g u n) (recvCap : Nat) (s : TcpSegment) :
    (t.onData recvCap s).1.Sends g u n ∧ (t.onData recvCap s).1.state = t.state := by
  have hcase := onData_case recvCap t s
  generalize t.onData recvCap s = r at hcase ⊢
  cases hcase with
  | taken => exact ⟨h.congr rfl rfl rfl rfl rfl id id, rfl⟩
  | ignored => exact ⟨h, rfl⟩

theorem Sends.onFin (h : t.Sends g u n) (hpast : t.state.handshake = false) (s : TcpSegment) :
    (t.onFin s).1.Sends g u n ∧ (t.onFin s).1.state.handshake = false := by
  have hcase := onFin_case t s
  generalize t.onFin s = r at hcase ⊢
  cases hcase with
  | taken =>
    have hpast' := TcpState.not_handshake_onPeerFin hpast
    refine ⟨h.congr rfl rfl rfl rfl rfl (fun hs => absurd hs (Bool.eq_false_iff.mp hpast'))
      fun hs => ?_, hpast'⟩
    change t.state.onPeerFin = .finWait2 ∨ t.state.onPeerFin = .closed at hs
    revert hs
    cases t.state <;> decide
  | ignored => exact ⟨h, hpast⟩

/-- **A segment past the handshake.** -/
theorem handleEstablished_tracks (hsend : t.Sends g u n) (hle : u ≤ o.next) (hrecv : t.Receives g o)
    (hg : g.sent.length < 2 ^ 31) (ho : o.sent.length < 2 ^ 31) (htook : g.Took o)
    (htook' : o.Took g) (hpast : t.state.handshake = false) (hs : s.Regular o g) (recvCap : Nat) :
    ∃ t' sendAck g' u' n', t.handleEstablished recvCap s = .ok (t', sendAck) ∧ Hears g g' o
      ∧ t'.aborted = t.aborted ∧ t'.state.handshake = false
      ∧ t'.Sends g' u' n' ∧ u' ≤ o.next ∧ t'.Receives g' o := by
  obtain ⟨t1, u', n', h1, hsend1, hle1, hsame⟩ := hsend.onAck hg hle htook'.next_le hpast hs
  have hpast1 : t1.state.handshake = false := by
    rcases hsame.state with heq | heq <;> rw [heq]
    · exact hpast
    · exact TcpState.not_handshake_onFinAcked hpast
  obtain ⟨got, hrecv2, htook2, hgrows2⟩ :=
    (hrecv.onFinAcked hsame).onData ho htook hpast1 hs recvCap
  obtain ⟨hsend2, hstate2⟩ := hsend1.onData recvCap s
  have hpast2 : (t1.onData recvCap s).1.state.handshake = false := by
    rw [hstate2]
    exact hpast1
  obtain ⟨gotFin, hrecv3, htook3, hgrows3⟩ :=
    hrecv2.onFin ho htook2 hpast2 (hs.mono (.refl o) hgrows2)
  obtain ⟨hsend3, hpast3⟩ := hsend2.onFin hpast2 s
  obtain ⟨hreset, htimed⟩ := onData_onFin_flags recvCap t1 s
  refine ⟨_, _, _, u', n', handleEstablished_of_onAck h1, ⟨rfl, hgrows2.trans hgrows3, htook3⟩, ?_,
    hpast3, hsend3.of_taken got gotFin, hle1, hrecv3⟩
  rw [aborted, hreset, htimed]
  exact hsame.aborted

/-- The last steps of the handshake: the sending side is as it was. -/
theorem Sends.opened (h : t.Sends g u n) (hs : t.state.handshake = true)
    (h1 : t'.sndNxt = t.sndNxt) (h2 : t'.sndUna = t.sndUna) (h3 : t'.sendBuf = t.sendBuf)
    (h4 : t'.wrClosed = t.wrClosed) (h5 : t'.finSeq = t.finSeq) (h6 : t'.state = .established) :
    t'.Sends g u n :=
  h.congr h1 h2 h3 h4 h5 (fun _ => hs) fun hs' => by
    rw [h6] at hs'
    rcases hs' with hs' | hs' <;> cases hs'

/-- **Any segment of the other end**, at a control block in any state. -/
theorem Tracks.onSegment (h : t.Tracks g o) (hopened : g.opened = true)
    (hg : g.sent.length < 2 ^ 31) (ho : o.sent.length < 2 ^ 31) (htook : g.Took o)
    (htook' : o.Took g) (hs : s.Fine o g) {recvCap : Nat} {loc rem : SocketAddr}
    {segs : List TcpSegment} (hr : t.onSegment recvCap loc rem s = .ok (t', segs)) :
    ∃ g', Hears g g' o ∧ t'.Tracks g' o ∧ ∀ seg ∈ segs, seg.Fine g' o := by
  unfold Tcb.onSegment at hr
  split at hr
  · cases hr
    exact ⟨g, .refl htook, .abort .reset t, nofun⟩
  · rename_i hrst
    -- what is not a RST is right
    have hs : s.Regular o g := by
      rcases hs with ⟨hrst', -⟩ | ⟨-, hs⟩
      · exact absurd hrst' hrst
      · exact hs
    have hsame : (t, []) = (t', segs) →
        ∃ g', Hears g g' o ∧ t'.Tracks g' o ∧ ∀ seg ∈ segs, seg.Fine g' o := by
      intro hr
      cases hr
      exact ⟨g, .refl htook, h, nofun⟩
    split at hr
    · rename_i hstate
      split at hr
      · rename_i hflags
        rw [Bool.and_eq_true] at hflags
        have hlive := h.live_of_state (by rw [hstate]; decide)
        obtain ⟨u, n, hsend, hle, hrecv⟩ := h.live hlive
        obtain ⟨hgot, hfin⟩ := hrecv.waiting hstate
        have hnext : g.next = 0 := by
          rw [Progress.next, hgot, hfin]
          rfl
        have hbase : s.seq + 1 = serial o.base g.next := by
          rw [hnext, serial_zero]
          exact hs.syn hflags.1
        cases hr
        refine ⟨g, .refl htook, .of_live hlive (hsend.opened (by rw [hstate]; rfl) rfl rfl rfl rfl
          rfl rfl) hle ⟨nofun, fun _ => ⟨hs.opened, hbase⟩, hrecv.held, hrecv.peerFin, nofun⟩, ?_⟩
        intro seg hseg
        cases List.mem_singleton.mp hseg
        exact Or.inr ⟨rfl, hopened, nofun, fun h => absurd rfl h, nofun,
          fun _ => ⟨hs.opened, g.next, Nat.le_refl _, hbase⟩⟩
      · exact hsame (Except.ok.inj hr)
    · rename_i hstate
      split at hr
      · split at hr
        · exact hsame (Except.ok.inj hr)
        · have hlive := h.live_of_state (by rw [hstate]; decide)
          obtain ⟨u, n, hsend, hle, hrecv⟩ := h.live hlive
          cases hr
          refine ⟨g, .refl htook, .of_live hlive (hsend.opened (by rw [hstate]; rfl) rfl rfl rfl rfl
            rfl rfl) hle (hrecv.congr rfl rfl rfl ?_ nofun), nofun⟩
          rw [hstate]
          exact ⟨nofun, nofun⟩
      · exact hsame (Except.ok.inj hr)
    · exact hsame (Except.ok.inj hr)
    · rename_i h1 h2 h3
      have hlive := h.live_of_state h3
      have hpast : t.state.handshake = false := by
        revert h1 h2
        cases t.state <;> simp [TcpState.handshake]
      obtain ⟨u, n, hsend, hle, hrecv⟩ := h.live hlive
      obtain ⟨t1, sendAck, g', u', n', heq, hears, haborted, hpast1, hsend1, hle1, hrecv1⟩ :=
        handleEstablished_tracks hsend hle hrecv hg ho htook htook' hpast hs recvCap
      rw [heq] at hr
      cases hr
      refine ⟨g', hears, .of_live (haborted.trans hlive) hsend1 hle1 hrecv1, fun seg hseg => ?_⟩
      split at hseg
      · cases List.mem_singleton.mp hseg
        exact hrecv1.ackSegment (hears.grows.opened hopened).1 (ne_synSent hpast1) _ _ _
      · cases hseg

/-! ## 6. The sweeps of `egress` -/

/-- A turn of the loop of `segment_one` sends what stands at `snd_nxt`. -/
theorem Sends.segCase {recvCap mss : Nat} {loc : SocketAddr} {seg : TcpSegment}
    (h : t.Sends g u n) (hrecv : t.Receives g o) (hopened : g.opened = true)
    (hlen : g.sent.length < 2 ^ 31) (hpast : t.state ≠ .synSent)
    (hc : SegCase recvCap mss loc t n (some (t', seg))) :
    (∃ m, t'.Sends g u m) ∧ t'.Receives g o ∧ t'.aborted = t.aborted ∧ t'.state = t.state
      ∧ seg.Fine g o := by
  obtain ⟨hother, hnext⟩ := hrecv.next hpast
  have hack : o.opened = true ∧ ∃ w, w ≤ g.next ∧ t.rcvNxt = serial o.base w :=
    ⟨hother, g.next, Nat.le_refl _, hnext⟩
  have hbuf := h.length_sendBuf
  have hwithin := h.within
  cases hc with
  | data hlen hwnd =>
    have hle : n + t.nextLen mss n ≤ t.sendBuf.length := by
      unfold nextLen
      omega
    have hlimit : g.sent.length ≤ g.limit := Nat.le_add_right _ _
    refine ⟨⟨n + t.nextLen mss n, h.una, ?_, h.buf, h.closed, h.fin, by omega, h.opening,
      h.finished⟩, hrecv.congr rfl rfl rfl Iff.rfl hrecv.heard, rfl, rfl, Or.inr ⟨rfl, hopened,
      nofun, fun _ => ⟨u + n, h.nxt, ?_⟩, nofun, fun _ => hack⟩⟩
    · show serial t.sndUna _ = _
      rw [h.una, serial_serial]
    · show (t.sendBuf.drop n).take _ <+: _
      rw [h.buf, List.drop_drop]
      exact List.take_prefix _ _
  | fin hn hwnd hw hfin =>
    have hshut : g.shut = true := h.closed.symm.trans hw
    rw [Progress.limit, hshut, if_pos rfl] at hwithin
    -- the FIN stands at the end of the buffer, so it was not acknowledged
    have hpos : g.sent.length = u + n := by
      rw [h.fin, hshut, if_pos rfl, h.una, serial_serial, ← hn, Option.some.injEq] at hfin
      exact (serial_inj (by omega) (by omega)).mp hfin
    refine ⟨⟨n + 1, h.una, ?_, h.buf, h.closed, h.fin, ?_, h.opening, h.finished⟩,
      hrecv.congr rfl rfl rfl Iff.rfl hrecv.heard, rfl, rfl, Or.inr ⟨rfl, hopened,
      nofun, fun h => absurd rfl h, fun _ => ⟨hshut, rfl, ?_⟩, fun _ => hack⟩⟩
    · show serial t.sndUna _ = _
      rw [h.una, serial_serial]
    · rewrite [Progress.limit, hshut, if_pos rfl]
      omega
    · show t.sndNxt = _
      rw [h.nxt, hpos]

theorem Sends.segmentLoop {recvCap mss : Nat} {loc : SocketAddr} (hopened : g.opened = true)
    (hlen : g.sent.length < 2 ^ 31) : ∀ {fuel : Nat} {t : Tcb} {n : Nat} {segs : List TcpSegment},
    t.Sends g u n → t.Receives g o → t.state ≠ .synSent →
    t.segmentLoop recvCap mss loc fuel = .ok (t', segs) →
    (∃ m, t'.Sends g u m) ∧ t'.Receives g o ∧ t'.aborted = t.aborted
      ∧ ∀ seg ∈ segs, seg.Fine g o := by
  intro fuel
  induction fuel with
  | zero =>
    intro t n segs _ _ _ h
    cases h
  | succ fuel ih =>
    intro t n segs hsend hrecv hpast h
    obtain ⟨r, hr, hcase⟩ := (hsend.seqSpace hlen).segmentStep t.roomy_cap recvCap mss loc
    cases r with
    | none =>
      rw [segmentLoop_idle hr] at h
      cases h
      exact ⟨⟨n, hsend⟩, hrecv, rfl, nofun⟩
    | some r =>
      obtain ⟨t1, seg⟩ := r
      rw [segmentLoop_turn hr] at h
      obtain ⟨⟨t2, segs2⟩, h2, h⟩ := bind_eq_ok.mp h
      cases h
      obtain ⟨⟨m, hsend1⟩, hrecv1, haborted, hstate, hseg⟩ :=
        hsend.segCase hrecv hopened hlen hpast hcase
      obtain ⟨hsend2, hrecv2, haborted2, hsegs⟩ := ih hsend1 hrecv1 (by rw [hstate]; exact hpast) h2
      exact ⟨hsend2, hrecv2, haborted2.trans haborted, List.forall_mem_cons.mpr ⟨hseg, hsegs⟩⟩

/-- The SYN or the SYN-ACK again. -/
theorem handshakeSegment_fine {loc : SocketAddr} {seg : TcpSegment} (hsend : t.Sends g u n)
    (hrecv : t.Receives g o) (hopened : g.opened = true) (h : t.handshakeSegment loc = .ok seg) :
    seg.Fine g o := by
  have hbase : t.state.handshake = true → t.sndUna - 1 + 1 = g.base := by
    intro hs
    rw [hsend.una, hsend.opening hs, serial_zero]
    grind
  unfold handshakeSegment at h
  split at h
  · rename_i hstate
    cases h
    exact Or.inr ⟨rfl, hopened, fun _ => hbase (by rw [hstate]; rfl), fun h => absurd rfl h, nofun,
      nofun⟩
  · rename_i hstate
    obtain ⟨hother, hnext⟩ := hrecv.next (by rw [hstate]; decide)
    cases h
    exact Or.inr ⟨rfl, hopened, fun _ => hbase (by rw [hstate]; rfl), fun h => absurd rfl h, nofun,
      fun _ => ⟨hother, g.next, Nat.le_refl _, hnext⟩⟩
  · cases h

/-- **What `egress` does to a control block** changes nothing of what was sent and taken. -/
theorem Tracks.sweep (h : t.Tracks g o) (hopened : g.opened = true) (hg : g.sent.length < 2 ^ 31)
    {cfg : KernelConfig} {loc rem : SocketAddr} {a : TcbAct} {segs : List TcpSegment}
    (hsweep : a.isSweep = true) (hfit : a.Fits t) (ha : t.act cfg loc rem a = .ok (t', segs)) :
    t'.Tracks g o ∧ ∀ seg ∈ segs, seg.Fine g o := by
  cases a with
  | count =>
    cases ha
    refine ⟨?_, nofun⟩
    obtain ⟨since, attempts, heq | heq⟩ := checkRetx_case cfg.retxThreshold cfg.retxMax t
    · rw [heq]
      refine ⟨h.aborted, fun hlive => ?_⟩
      obtain ⟨u, n, hsend, hle, hrecv⟩ := h.live hlive
      exact ⟨u, n, hsend.congr rfl rfl rfl rfl rfl id id, hle,
        hrecv.congr rfl rfl rfl Iff.rfl hrecv.heard⟩
    · rw [heq]
      refine ⟨h.aborted, fun hlive => ?_⟩
      obtain ⟨u, n, hsend, hle, hrecv⟩ := h.live hlive
      have hwithin := hsend.within
      exact ⟨u, 0, ⟨hsend.una, hsend.una, hsend.buf, hsend.closed, hsend.fin, by omega,
        hsend.opening, hsend.finished⟩, hle, hrecv.congr rfl rfl rfl Iff.rfl hrecv.heard⟩
  | giveUp =>
    cases ha
    exact ⟨.abort .timedOut t, nofun⟩
  | handshake =>
    obtain ⟨seg, hseg, ha⟩ := bind_eq_ok.mp ha
    cases ha
    refine ⟨h, fun seg' hseg' => ?_⟩
    cases List.mem_singleton.mp hseg'
    have hopen : t.state ≠ .closed := by
      intro hs
      rw [handshakeSegment, hs] at hseg
      cases hseg
    obtain ⟨u, n, hsend, -, hrecv⟩ := h.live (h.live_of_state hopen)
    exact handshakeSegment_fine hsend hrecv hopened hseg
  | segment mss =>
    have hstate := (Bool.and_eq_true_iff.mp hfit).1
    have hlive := h.live_of_state (by
      intro hs
      rw [hs] at hstate
      cases hstate)
    obtain ⟨u, n, hsend, hle, hrecv⟩ := h.live hlive
    obtain ⟨⟨m, hsend'⟩, hrecv', haborted, hsegs⟩ := hsend.segmentLoop hopened hg hrecv (by
      intro hs
      rw [hs] at hstate
      cases hstate) ha
    exact ⟨.of_live (haborted.trans hlive) hsend' hle hrecv', hsegs⟩
  | _ => cases hsweep

/-! ## 7. The calls of the application -/

/-- A control block as a call of `connect` or a SYN makes it. -/
theorem Tracks.fresh {state : TcpState} {peer : SocketAddr} {isn : UInt32} {wnd : UInt16}
    {rcvNxt : UInt32} (hstate : state.handshake = true)
    (hnext : state ≠ .synSent → o.opened = true ∧ rcvNxt = o.base) :
    (Tcb.fresh state peer isn wnd rcvNxt).Tracks
      { Progress.none with opened := true, base := isn + 1 }
      o := by
  refine .of_live (u := 0) (n := 0) rfl ⟨?_, ?_, rfl, rfl, rfl, Nat.le_refl _, fun _ => rfl,
    fun hs => ?_⟩ (Nat.zero_le _) ⟨fun _ => ⟨rfl, rfl⟩, fun hs => ?_, rfl, rfl, fun hs => ?_⟩
  · exact (serial_zero _).symm
  · exact (serial_zero _).symm
  · change state = .finWait2 ∨ state = .closed at hs
    rcases hs with rfl | rfl <;> cases hstate
  · obtain ⟨h1, h2⟩ := hnext hs
    exact ⟨h1, h2.trans (serial_zero _).symm⟩
  · change state = .closeWait ∨ state = .closing ∨ state = .lastAck ∨ state = .closed at hs
    rcases hs with rfl | rfl | rfl | rfl <;> cases hstate

theorem Tracks.pollSend (h : t.Tracks g o) {sendCap : Nat} {buf : List UInt8} {m : Nat}
    (hr : (t.pollSend sendCap buf).2 = .ready (.ok m)) :
    (t.pollSend sendCap buf).1.Tracks { g with sent := g.sent ++ buf.take m } o
      ∧ g.Grows { g with sent := g.sent ++ buf.take m } := by
  have hcase := pollSend_case sendCap t buf
  generalize t.pollSend sendCap buf = r at hcase hr ⊢
  cases hcase with
  | refused r hno => exact absurd hr (hno m)
  | accepted hlive hopen hstate hroom =>
    cases hr
    have hlive : t.aborted = false := abortError_eq_none.mp hlive
    obtain ⟨u, n, hsend, hle, hrecv⟩ := h.live hlive
    have hshut : g.shut = false := hsend.closed.symm.trans hopen
    have hwithin := hsend.of_open hshut
    refine ⟨.of_live hlive (u := u) (n := n) ⟨hsend.una, hsend.nxt, ?_, hsend.closed, ?_, ?_,
      hsend.opening, fun hs => ?_⟩ hle ⟨hrecv.waiting, hrecv.next, hrecv.held, hrecv.peerFin,
        hrecv.heard⟩, ⟨fun h => ⟨h, rfl⟩, List.prefix_append _ _, fun h => ?_, Nat.le_refl _,
        fun h => ⟨h, rfl⟩⟩⟩
    · show t.sendBuf ++ _ = (g.sent ++ _).drop u
      rw [List.drop_append_of_le_length (by omega), hsend.buf]
    · have := hsend.fin
      rw [hshut, if_neg Bool.false_ne_true] at this
      show t.finSeq = if g.shut then _ else _
      rw [hshut, if_neg Bool.false_ne_true]
      exact this
    · show u + n ≤ (g.sent ++ _).length + _
      rw [List.length_append]
      omega
    · have := (hsend.finished hs).1
      rw [hshut] at this
      cases this
    · rw [hshut] at h
      cases h

theorem Tracks.shutWrite (h : t.Tracks g o) (hlive : t.aborted = false)
    (hopen : t.wrClosed = false) :
    t.shutWrite.Tracks { g with shut := true } o ∧ g.Grows { g with shut := true } := by
  obtain ⟨u, n, hsend, hle, hrecv⟩ := h.live hlive
  have hshut : g.shut = false := hsend.closed.symm.trans hopen
  have hwithin := hsend.of_open hshut
  have hbuf := hsend.length_sendBuf
  have hrecv' : t.shutWrite.Receives g o := by
    refine hrecv.congr rfl rfl rfl ?_ fun hs => hrecv.heard ?_
    · show t.state.onShutdown = .synSent ↔ _
      cases t.state <;> decide
    · change t.state.onShutdown = .closeWait ∨ t.state.onShutdown = .closing
        ∨ t.state.onShutdown = .lastAck ∨ t.state.onShutdown = .closed at hs
      revert hs
      cases t.state <;> decide
  refine ⟨.of_live hlive (u := u) (n := n) ⟨hsend.una, hsend.nxt, hsend.buf, rfl, ?_, ?_,
    fun hs => ?_, fun hs => ?_⟩ hle ⟨hrecv'.waiting, hrecv'.next, hrecv'.held, hrecv'.peerFin,
      hrecv'.heard⟩, ⟨fun h => ⟨h, rfl⟩, List.prefix_rfl, fun h => ⟨rfl, rfl⟩, Nat.le_refl _,
      fun h => ⟨h, rfl⟩⟩⟩
  · show some (t.sndUna + UInt32.ofNat t.sendBuf.length) = some _
    rw [hsend.una, hbuf, serial_add, Nat.add_sub_cancel' (by omega)]
  · show u + n ≤ g.sent.length + 1
    omega
  · refine hsend.opening ?_
    change t.state.onShutdown.handshake = true at hs
    revert hs
    cases t.state <;> decide
  · have hs : t.state = .finWait2 ∨ t.state = .closed := by
      change t.state.onShutdown = .finWait2 ∨ t.state.onShutdown = .closed at hs
      revert hs
      cases t.state <;> decide
    have := (hsend.finished hs).1
    rw [hshut] at this
    cases this

/-- A read that returns bytes takes them from what is held. -/
theorem Tracks.pollRecv (h : t.Tracks g o) (htook : g.Took o) (hopened : g.opened = true)
    {recvCap : Nat} {lens : List Nat} {out : List UInt8}
    (hr : (t.pollRecvVectored recvCap lens).2.1 = .ready (.ok out)) (loc rem : SocketAddr) :
    (t.pollRecvVectored recvCap lens).1.Tracks { g with read := g.read ++ out } o
      ∧ ({ g with read := g.read ++ out } : Progress).Took o
      ∧ ((t.pollRecvVectored recvCap lens).2.2 = true →
        ((t.pollRecvVectored recvCap lens).1.ackSegment recvCap loc rem).Fine g o) := by
  have hcase := pollRecvVectored_case recvCap t lens
  generalize t.pollRecvVectored recvCap lens = r at hcase hr ⊢
  cases hcase with
  | refused r hno => exact absurd hr (hno out)
  | eof hlive hempty hfin =>
    cases hr
    rw [List.append_nil]
    exact ⟨h, htook, nofun⟩
  | read out' rest hsplit hout hlive hne =>
    cases hr
    have hlive : t.aborted = false := abortError_eq_none.mp hlive
    obtain ⟨u, n, hsend, hle, hrecv⟩ := h.live hlive
    have hheld := hrecv.held
    rw [← hsplit, ← List.append_assoc] at hheld
    have hpast : t.state ≠ .synSent := by
      intro hs
      have hgot := (hrecv.waiting hs).1
      rw [hgot, List.take_zero, List.append_assoc, hsplit, List.append_eq_nil_iff] at hheld
      exact hne hheld.2
    refine ⟨.of_live hlive (u := u) (n := n) ⟨hsend.una, hsend.nxt, hsend.buf, hsend.closed,
      hsend.fin, hsend.within, hsend.opening, hsend.finished⟩ hle ⟨hrecv.waiting, hrecv.next, hheld,
      hrecv.peerFin, hrecv.heard⟩, ⟨htook.got, htook.fin, ?_⟩, fun _ => ?_⟩
    · show g.read ++ out <+: o.sent.take g.got
      rw [← hheld]
      exact List.prefix_append _ _
    · obtain ⟨hother, hnext⟩ := hrecv.next hpast
      exact Or.inr ⟨rfl, hopened, nofun, fun h => absurd rfl h, nofun,
        fun _ => ⟨hother, g.next, Nat.le_refl _, hnext⟩⟩

theorem drainInto_ne_nil {lens : List Nat} (hlens : ∃ len ∈ lens, 0 < len) :
    ∀ {data : List UInt8}, data ≠ [] → (drainInto data lens).1 ≠ [] := by
  induction lens with
  | nil =>
    obtain ⟨len, hmem, -⟩ := hlens
    cases hmem
  | cons len lens ih =>
    intro data hne hnil
    unfold drainInto at hnil
    dsimp only at hnil
    split at hnil
    · rename_i hrest
      have hrest : data.drop len = [] := by simpa using hrest
      have hall := List.take_append_drop len data
      rw [hrest, show data.take len = [] from hnil] at hall
      exact hne hall.symm
    · rename_i hrest
      obtain ⟨hhead, htail⟩ := List.append_eq_nil_iff.mp hnil
      have hzero : len = 0 := by
        rcases List.take_eq_nil_iff.mp hhead with h | h
        · exact h
        · exact absurd h hne
      obtain ⟨len', hmem, hpos⟩ := hlens
      rcases List.mem_cons.mp hmem with rfl | hmem
      · omega
      · exact ih ⟨len', hmem, hpos⟩ (by simpa using hrest) htail

/-- **A read into a buffer that returns nothing** is at the end of what the other end has sent. -/
theorem Tracks.endOfStream (h : t.Tracks g o) (htook : g.Took o) {recvCap : Nat} {lens : List Nat}
    (hlens : ∃ len ∈ lens, 0 < len)
    (hr : (t.pollRecvVectored recvCap lens).2.1 = .ready (.ok [])) :
    o.shut = true ∧ g.read = o.sent := by
  have hcase := pollRecvVectored_case recvCap t lens
  generalize t.pollRecvVectored recvCap lens = r at hcase hr ⊢
  cases hcase with
  | refused r hno => exact absurd hr (hno [])
  | read out rest hsplit hout hlive hne =>
    cases hr
    exact absurd (congrArg Prod.fst hout).symm (drainInto_ne_nil hlens hne)
  | eof hlive hempty hfin =>
    obtain ⟨u, n, -, -, hrecv⟩ := h.live (abortError_eq_none.mp hlive)
    obtain ⟨hshut, hgot⟩ := htook.fin (hrecv.peerFin.symm.trans hfin)
    have hheld := hrecv.held
    rw [hempty, List.append_nil, hgot, List.take_length] at hheld
    exact ⟨hshut, hheld⟩

end Tcb

end Turmoil.Net
