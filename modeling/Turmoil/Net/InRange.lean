/-
# No call is out of range

The numbers of `Net.SeqSpace` in every kernel that is reached, and what follows from them: of all
the ways in which a call can fail to return, an index or a split out of range is none.  The only
split is that of `handle_established`, and it is given numbers; the rest of the kernel fails an
`expect`, or returns.
-/
import Turmoil.Net.SeqSpace

namespace Turmoil.Net

/-! ## 1. Calls that do not go out of range -/

/-- The call returns, or fails for another reason than a range. -/
def InRange {α : Type} (x : Except Panic α) : Prop := x ≠ .error .outOfRange

section
variable {α β : Type} {x : Except Panic α} {f : α → Except Panic β}

theorem InRange.ok (a : α) : InRange (.ok a : Except Panic α) := by
  intro h
  cases h

theorem InRange.expect (o : Option α) (what : String) : InRange (expect o what) :=
  expect_ne_outOfRange

theorem InRange.failed (what : String) : InRange (.error (.expect what) : Except Panic α) := by
  intro h
  cases h

theorem InRange.asserted (what : String) : InRange (.error (.assert what) : Except Panic α) := by
  intro h
  cases h

theorem InRange.bind (hx : InRange x) (hf : ∀ a, x = .ok a → InRange (f a)) : InRange (x >>= f) := by
  intro h
  rcases bind_eq_error.mp h with h | ⟨a, ha, h⟩
  · exact hx h
  · exact hf a ha h

/-- The call returns, or an expectation fails: no range is missed, and no loop goes on for ever. -/
def Plain {α : Type} (x : Except Panic α) : Prop :=
  x ≠ .error .outOfRange ∧ x ≠ .error .diverges

theorem Plain.ok (a : α) : Plain (.ok a : Except Panic α) := ⟨nofun, nofun⟩

theorem Plain.expect (o : Option α) (what : String) : Plain (expect o what) := by
  cases o <;> exact ⟨nofun, nofun⟩

theorem Plain.failed (what : String) : Plain (.error (.expect what) : Except Panic α) :=
  ⟨nofun, nofun⟩

theorem Plain.asserted (what : String) : Plain (.error (.assert what) : Except Panic α) :=
  ⟨nofun, nofun⟩

theorem Plain.inRange (h : Plain x) : InRange x := h.1

theorem Plain.bind (hx : Plain x) (hf : ∀ a, x = .ok a → Plain (f a)) : Plain (x >>= f) := by
  constructor
  · intro h
    rcases bind_eq_error.mp h with h | ⟨a, ha, h⟩
    · exact hx.1 h
    · exact (hf a ha).1 h
  · intro h
    rcases bind_eq_error.mp h with h | ⟨a, ha, h⟩
    · exact hx.2 h
    · exact (hf a ha).2 h

end

namespace Kernel

variable {k k' : Kernel} {fd : Fd}

/-! ## 2. The numbers of every connection -/

/-- The invariant: every control block is closed by an abort, or has its numbers. -/
def Numbered (k : Kernel) : Prop := ∀ fd c, k.conn? fd = some c → c.tcb.Numbered k.cfg

/-- A new control block: nothing is sent, nothing is buffered. -/
theorem fresh_numbered (cfg : KernelConfig) (state : TcpState) (peer : SocketAddr) (isn : UInt32)
    (wnd : UInt16) (rcvNxt : UInt32) : (Tcb.fresh state peer isn wnd rcvNxt).Numbered cfg where
  closed h := by cases h
  seqSpace _ := ⟨0, (serial_zero _).symm, Nat.zero_le _, Nat.zero_le _,
    fun _ => ⟨rfl, Nat.le_refl 0⟩, fun h => by cases h⟩

/-- **Every step** keeps the numbers. -/
theorem Numbered.step {σ : Scope} (hcap : k.cfg.sendBufCap < 2 ^ 32 - 1) (hk : k.Numbered)
    (h : KStep σ k k') : k'.Numbered := by
  intro g c hg
  rw [h.cfg.1]
  exact h.each (fun _ _ _ _ _ _ => fresh_numbered ..) (fun _ _ _ _ _ _ ht ha => ht.act hcap ha) hk
    g c hg

/-- A whole sequence of steps keeps the numbers. -/
theorem Numbered.steps {σ : Scope} (hk : k.cfg.sendBufCap < 2 ^ 32 - 1 ∧ k.Numbered)
    (h : KSteps σ k k') : k'.cfg.sendBufCap < 2 ^ 32 - 1 ∧ k'.Numbered := by
  induction h with
  | refl => exact hk
  | tail _ h ih => exact ⟨by rw [h.cfg.1]; exact ih.1, ih.2.step ih.1 h⟩

/-! ## 3. The two ends of the stack -/

theorem boundEndpoint_plain (st : Socket) : Plain (boundEndpoint st) :=
  .bind (.expect _ _) fun _ _ => .ok _

theorem firstListener_plain (k : Kernel) (fds : List Fd) :
    Plain (findListener.firstListener k fds) := by
  induction fds with
  | nil => exact .ok _
  | cons fd fds ih =>
    refine .bind (.expect _ _) fun st _ => ?_
    split
    · exact .ok _
    · exact ih

theorem acceptSyn_plain (k : Kernel) (listener : Fd) (loc rem : SocketAddr) (s : TcpSegment) :
    Plain (k.acceptSyn listener loc rem s) := by
  refine .bind (.expect _ _) fun st _ => .bind (.expect _ _) fun listen _ => ?_
  split
  · exact .ok _
  · refine .bind (.expect _ _) fun _ _ => .bind ?_ fun _ _ => .ok _
    unfold SocketTable.insertConnection
    split
    · exact .asserted _
    · exact .ok _

theorem pushToListener_plain (k : Kernel) (child : Fd) (loc : SocketAddr) :
    Plain (k.pushToListener child loc) := by
  refine .bind (firstListener_plain k _) fun o _ => ?_
  cases o with
  | none => exact .ok _
  | some listener => exact .bind (.expect _ _) fun _ _ => .bind (.expect _ _) fun _ _ => .ok _

/-- The one split of the kernel. -/
theorem handleOnConnection_inRange (hcap : k.cfg.sendBufCap < 2 ^ 32 - 1) (hk : k.Numbered)
    (loc rem : SocketAddr) (s : TcpSegment) : InRange (k.handleOnConnection fd loc rem s) := by
  unfold handleOnConnection
  split
  · exact .bind (.expect _ _) fun _ _ => .ok _
  · refine .bind (.expect _ _) fun st hst => .bind (.expect _ _) fun t ht => ?_
    have hnum := hk fd _ (conn?_of_lookup (expect_eq_ok.mp hst) (expect_eq_ok.mp ht))
    have hest : t.state ≠ .closed → InRange (k.handleEstablished fd loc rem t s) := by
      intro hstate
      obtain ⟨n, hn⟩ := hnum.seqSpace_of_state hstate
      obtain ⟨r, m, hr, -⟩ := hn.handleEstablished hcap s
      rw [Kernel.handleEstablished, hr]
      exact .ok _
    cases hstate : t.state with
    | synSent =>
      simp only
      split
      · exact .ok _
      · exact .ok _
    | synReceived =>
      simp only
      split
      · split
        · exact .ok _
        · exact (pushToListener_plain _ _ _).inRange
      · exact .ok _
    | closed => exact .ok _
    | _ => exact hest (by rw [hstate]; decide)

theorem deliver_inRange (hcap : k.cfg.sendBufCap < 2 ^ 32 - 1) (hk : k.Numbered) (pkt : Packet) :
    InRange (k.deliver pkt) := by
  unfold deliver
  split
  · rename_i d _
    unfold udpDeliver
    dsimp only
    split
    · exact .ok _
    · refine .bind (.expect _ _) fun st _ => ?_
      split
      · exact .ok _
      · exact .ok _
  · rename_i s _
    unfold tcpDeliver
    dsimp only
    split
    · exact handleOnConnection_inRange hcap hk _ _ s
    · split
      · refine .bind (firstListener_plain k _).inRange fun o _ => ?_
        cases o with
        | none => exact .ok _
        | some listener => exact (acceptSyn_plain _ _ _ _ _).inRange
      · exact .ok _

theorem route_inRange : ∀ {pkts : List Packet} {k : Kernel}, k.cfg.sendBufCap < 2 ^ 32 - 1 →
    k.Numbered → InRange (route k pkts) := by
  intro pkts
  induction pkts with
  | nil => exact fun _ _ => .ok _
  | cons pkt pkts ih =>
    intro k hcap hk
    unfold route
    split
    · refine .bind (deliver_inRange hcap hk pkt) fun k1 h1 => ?_
      have hk1 := Numbered.steps ⟨hcap, hk⟩ (deliver_steps (σ := .any) (fun _ _ => trivial)
        (fun _ _ _ _ => trivial) h1)
      exact ih hk1.1 hk1.2
    · exact .bind (ih hcap hk) fun _ _ => .ok _

theorem foldlM_inRange {f : Kernel → Fd → Except Panic Kernel} (hf : ∀ k fd, InRange (f k fd)) :
    ∀ (l : List Fd) (k : Kernel), InRange (l.foldlM f k) := by
  intro l
  induction l with
  | nil => exact fun _ => .ok _
  | cons fd l ih =>
    intro k
    rw [List.foldlM_cons]
    exact .bind (hf k fd) fun k1 _ => ih k1

theorem foldlM_plain {f : Kernel → Fd → Except Panic Kernel} (hf : ∀ k fd, Plain (f k fd)) :
    ∀ (l : List Fd) (k : Kernel), Plain (l.foldlM f k) := by
  intro l
  induction l with
  | nil => exact fun _ => .ok _
  | cons fd l ih =>
    intro k
    rw [List.foldlM_cons]
    exact .bind (hf k fd) fun k1 _ => ih k1

theorem countAll_plain : ∀ (fds : List Fd) (k : Kernel), Plain (countAll k fds) := by
  intro fds
  induction fds with
  | nil => exact fun _ => .ok _
  | cons fd fds ih =>
    intro k
    exact .bind (.bind (.expect _ _) fun _ _ => .ok _) fun r _ => .bind (ih r.1) fun _ _ => .ok _

theorem checkRetx_plain (k : Kernel) : Plain k.checkRetx := by
  refine .bind (countAll_plain _ k) fun r _ => .bind (foldlM_plain (fun k fd => ?_) _ _)
    fun k1 _ => foldlM_plain (fun k fd => ?_) _ _
  · refine .bind (.expect _ _) fun st _ => .bind (.expect _ _) fun t _ =>
      .bind (boundEndpoint_plain st) fun loc _ => .bind ?_ fun _ _ => .ok _
    unfold Tcb.handshakeSegment
    split
    · exact .ok _
    · exact .ok _
    · exact .failed _
  · exact .bind (.expect _ _) fun _ _ => .ok _

theorem segmentAll_inRange (k : Kernel) : InRange k.segmentAll :=
  foldlM_inRange (fun _ _ => .bind (.expect _ _) fun st _ => .bind (boundEndpoint_plain st).inRange
    fun _ _ => .bind (.expect _ _) fun _ _ => .bind Tcb.segmentLoop_inRange.1 fun _ _ => .ok _) _ k

theorem egressLoop_inRange : ∀ {fuel : Nat} {k : Kernel}, k.cfg.sendBufCap < 2 ^ 32 - 1 →
    k.Numbered → InRange (egressLoop fuel k) := by
  intro fuel
  induction fuel with
  | zero =>
    intro k _ _ h
    cases h
  | succ fuel ih =>
    intro k hcap hk
    refine .bind (segmentAll_inRange k) fun k1 h1 => ?_
    have hk1 := Numbered.steps ⟨hcap, hk⟩ (segmentAll_steps (σ := .any) (fun _ _ _ _ => trivial) h1)
    split
    · exact .ok _
    · refine .bind (route_inRange (k := { k1 with outbound := [] }) hk1.1 hk1.2) fun r hr => ?_
      have hk2 := Numbered.steps (k := { k1 with outbound := [] }) hk1
        (route_steps (σ := .any) (fun _ _ _ _ _ => ⟨trivial, fun _ => trivial⟩) hr).1
      exact .bind (ih hk2.1 hk2.2) fun _ _ => .ok _

theorem egress_inRange (hcap : k.cfg.sendBufCap < 2 ^ 32 - 1) (hk : k.Numbered) (fuel : Nat) :
    InRange (k.egress fuel) := by
  refine .bind (checkRetx_plain k).inRange fun k1 h1 => ?_
  have hk1 := Numbered.steps ⟨hcap, hk⟩ (checkRetx_steps (σ := .any) (fun _ _ _ _ => trivial)
    (fun _ _ _ _ _ => trivial) h1)
  exact .bind (egressLoop_inRange hk1.1 hk1.2) fun _ _ => .ok _

/-! ## 4. The calls of the application -/

theorem allocatePort_inRange (t : SocketTable) (domain : Domain) (ty : SockType) :
    InRange (t.allocatePort domain ty) := by
  have hscan : ∀ (inUse : UInt16 → Bool) (start : UInt16) (fuel : Nat) (a : PortAllocator),
      InRange (PortAllocator.scan inUse start fuel a) := by
    intro inUse start fuel
    induction fuel with
    | zero =>
      intro a h
      cases h
    | succ fuel ih =>
      intro a
      unfold PortAllocator.scan
      dsimp only
      split
      · exact .ok _
      · split
        · exact .ok _
        · exact ih _
  exact .bind (hscan _ _ _ _) fun _ _ => .ok _

theorem ensureBound_inRange (k : Kernel) (fd : Fd) (st : Socket) (ty : SockType) (dst : IpAddr) :
    InRange (k.ensureBound fd st ty dst) := by
  unfold ensureBound
  split
  · exact .ok _
  · unfold autoBind
    split
    · exact .ok _
    · refine .bind (allocatePort_inRange _ _ _) fun r _ => ?_
      dsimp only
      split
      · exact .ok _
      · exact .bind (.expect _ _) fun _ _ => .ok _

theorem bind_inRange (k : Kernel) (addr : SocketAddr) (ty : SockType) :
    InRange (k.bind addr ty) := by
  unfold Kernel.bind
  dsimp only
  split
  · exact .ok _
  · split
    · refine .bind (allocatePort_inRange _ _ _) fun r _ => ?_
      split
      · exact .ok _
      · exact .ok _
    · exact .ok _

theorem pollConnect_inRange (k : Kernel) (fd : Fd) (peer : SocketAddr) :
    InRange (k.pollConnect fd peer) := by
  unfold pollConnect
  split
  · exact .ok _
  · split
    · exact .ok _
    · split
      · refine .bind (ensureBound_inRange _ _ _ _ _) fun r _ => ?_
        dsimp only
        split
        · exact .ok _
        · exact .ok _
      · refine .bind (.expect _ _) fun st _ => ?_
        split
        · exact .ok _
        · refine .bind (ensureBound_inRange _ _ _ _ _) fun r _ => ?_
          dsimp only
          split
          · exact .ok _
          · refine .bind (.bind ?_ fun src _ => .bind (.expect _ _) fun _ _ => .bind ?_ fun _ _ => .ok _)
              fun _ _ => .ok _
            · exact .bind (.expect _ _) fun _ _ => .bind (.expect _ _) fun _ _ => .ok _
            · unfold SocketTable.insertConnection
              split
              · exact .asserted _
              · exact .ok _
      · exact .failed _

theorem udpSendTo_inRange (k : Kernel) (fd : Fd) (buf : List UInt8) (dst : SocketAddr) :
    InRange (k.udpSendTo fd buf dst) := by
  refine .bind (.expect _ _) fun st _ => ?_
  split
  · exact .ok _
  · split
    · exact .ok _
    · refine .bind (ensureBound_inRange _ _ _ _ _) fun r _ => ?_
      dsimp only
      split
      · exact .ok _
      · exact .ok _

theorem tcpPollRecvVectored_inRange (k : Kernel) (fd : Fd) (lens : List Nat) :
    InRange (k.tcpPollRecvVectored fd lens) := by
  unfold tcpPollRecvVectored
  split
  · exact .ok _
  · split
    · exact .ok _
    · dsimp only
      split
      · exact .ok _
      · exact .bind (boundEndpoint_plain _).inRange fun _ _ => .ok _

theorem close_inRange (k : Kernel) (fd : Fd) : InRange (k.close fd) := by
  refine .bind ?_ fun _ _ => .ok _
  unfold onClose
  split
  · exact .ok _
  · split
    · refine .bind (boundEndpoint_plain _).inRange fun loc _ =>
        .bind (foldlM_inRange (fun k child => ?_) _ _) fun _ _ => .ok _
      unfold resetChild
      split
      · exact .ok _
      · split
        · exact .ok _
        · exact .bind (boundEndpoint_plain _).inRange fun _ _ => .ok _
    · split
      · split
        · exact .bind (boundEndpoint_plain _).inRange fun _ _ => .ok _
        · exact .ok _
      · exact .ok _
    · exact .ok _

/-- No call of the application splits anything. -/
theorem syscall_inRange (k : Kernel) (c : Syscall) : InRange (k.syscall c) := by
  cases c with
  | openSocket domain ty => exact .ok _
  | bind addr ty => exact .bind (bind_inRange k addr ty) fun _ _ => .ok _
  | listen fd backlog =>
    refine .bind ?_ fun _ _ => .ok _
    unfold Kernel.listen
    split
    · exact .ok _
    · split
      · exact .asserted _
      · split
        · exact .asserted _
        · exact .ok _
  | connect fd peer => exact .bind (pollConnect_inRange k fd peer) fun _ _ => .ok _
  | accept fd =>
    refine .bind ?_ fun _ _ => .ok _
    unfold pollAccept
    split
    · exact .ok _
    · refine .bind (.expect _ _) fun listen _ => ?_
      split
      · exact .ok _
      · exact .bind (.expect _ _) fun _ _ => .bind (.expect _ _) fun _ _ => .ok _
  | send fd buf =>
    refine .bind ?_ fun _ _ => .ok _
    unfold pollSend
    split
    · exact .ok _
    · split
      · split
        · exact .ok _
        · exact udpSendTo_inRange k fd buf _
      · exact .ok _
      · exact .failed _
  | sendTo fd buf dst =>
    refine .bind ?_ fun _ _ => .ok _
    unfold pollSendTo
    split
    · exact .ok _
    · split
      · exact .asserted _
      · split
        · exact .ok _
        · exact udpSendTo_inRange k fd buf dst
  | recv fd len =>
    refine .bind ?_ fun _ _ => .ok _
    unfold pollRecv
    split
    · exact .ok _
    · split
      · split
        · exact .ok _
        · exact .ok _
      · exact tcpPollRecvVectored_inRange k fd [len]
      · exact .failed _
  | recvFrom fd len =>
    refine .bind ?_ fun _ _ => .ok _
    unfold pollRecvFrom
    split
    · exact .ok _
    · split
      · exact .asserted _
      · split
        · exact .ok _
        · exact .ok _
  | tryRecvVectored fd lens =>
    refine .bind ?_ fun _ _ => .ok _
    unfold tryRecvVectored
    split
    · exact .ok _
    · split
      · exact .ok _
      · refine .bind (tcpPollRecvVectored_inRange k fd lens) fun r _ => ?_
        split
        · exact .ok _
        · exact .ok _
  | peek fd len =>
    refine .bind ?_ fun _ _ => .ok _
    unfold pollPeek
    split
    · exact .ok _
    · split
      · split
        · exact .ok _
        · exact .ok _
      · exact .ok _
      · exact .failed _
  | peekFrom fd len =>
    refine .bind ?_ fun _ _ => .ok _
    unfold pollPeekFrom
    split
    · exact .ok _
    · split
      · exact .asserted _
      · split
        · exact .ok _
        · exact .ok _
  | shutdown fd =>
    refine .bind ?_ fun _ _ => .ok _
    unfold pollShutdownWrite
    split
    · exact .ok _
    · split
      · exact .ok _
      · exact .failed _
  | close fd => exact .bind (close_inRange k fd) fun _ _ => .ok _
  | setOption fd opt => exact .ok _

theorem step_inRange (hcap : k.cfg.sendBufCap < 2 ^ 32 - 1) (hk : k.Numbered) (op : KernelOp) :
    InRange (k.step op) := by
  cases op with
  | call c => exact .bind (syscall_inRange k c) fun _ _ => .ok _
  | deliver pkt => exact .bind (deliver_inRange hcap hk pkt) fun _ _ => .ok _
  | egress fuel => exact .bind (egress_inRange hcap hk fuel) fun _ _ => .ok _

end Kernel

/-! ## 5. Every kernel that is reached -/

/-- What the counters of a control block say about its buffers. -/
structure Tcb.InSequence (cfg : KernelConfig) (t : Tcb) : Prop where
  inFlight_le : t.inFlight.toNat ≤ t.sendBuf.length + (if t.finEmitted then 1 else 0)
  fin_unacked : t.wrClosed = true → t.finAcked = false →
    t.finSeq = some (t.sndUna + UInt32.ofNat t.sendBuf.length)
  fin_acked : t.wrClosed = true → t.finAcked = true →
    t.finSeq = some (t.sndUna - 1) ∧ t.sendBuf = []
  sendBuf_le : t.sendBuf.length ≤ cfg.sendBufCap
  recvBuf_le : t.recvBuf.length ≤ cfg.recvBufCap

theorem Tcb.SeqSpace.inSequence {cfg : KernelConfig} {t : Tcb} {n : Nat}
    (hcap : cfg.sendBufCap < 2 ^ 32 - 1) (h : t.SeqSpace cfg n) : t.InSequence cfg := by
  have hlen := h.sendLen
  have hacked : ∀ len, len ≤ cfg.sendBufCap → t.sndUna ≠ serial t.sndUna len + 1 := by
    intro len hlen heq
    rw [serial_add_one] at heq
    nth_rewrite 1 [← serial_zero t.sndUna] at heq
    have := (serial_inj (by omega) (by omega)).mp heq
    omega
  refine ⟨?_, fun hw ha => ?_, fun hw ha => ?_, hlen, h.recvLen⟩
  · rw [h.inFlight hcap]
    cases hw : t.wrClosed with
    | false => exact Nat.le_trans (h.writing hw).2 (Nat.le_add_right _ _)
    | true =>
      rcases h.shut hw with ⟨hfs, hle⟩ | ⟨-, -, h0⟩
      · -- the whole buffer and one more: the FIN is out
        by_cases hn : n = t.sendBuf.length + 1
        · have hem : t.finEmitted = true := by
            rw [finEmitted, hfs]
            simp only [beq_iff_eq]
            rw [serial_add_one, h.sent, hn]
          rw [hem]
          exact hle
        · omega
      · omega
  · rcases h.shut hw with ⟨hfs, -⟩ | ⟨hfs, -, -⟩
    · exact hfs
    · rw [finAcked, hfs] at ha
      simp only [beq_eq_false_iff_ne] at ha
      exact absurd (by grind) ha
  · rcases h.shut hw with ⟨hfs, -⟩ | ⟨hfs, hnil, -⟩
    · rw [finAcked, hfs] at ha
      simp only [beq_iff_eq] at ha
      exact absurd ha (hacked _ hlen)
    · exact ⟨hfs, hnil⟩

namespace Kernel

/-- **The sequence space.**  In every kernel that calls, packets and turns of `egress` lead to,
every control block that was not aborted has its counters in sequence, and whatever happens next
is in range. -/
theorem sequence_space {cfg : KernelConfig} (hcap : cfg.sendBufCap < 2 ^ 31) (addrs : List IpAddr)
    (ops : List KernelOp) {k : Kernel} (hrun : (host cfg addrs).run ops = .ok k) :
    (∀ fd t, k.tcb? fd = some t → t.aborted = false → t.InSequence cfg)
      ∧ ∀ op, k.step op ≠ .error .outOfRange := by
  have hcap : cfg.sendBufCap < 2 ^ 32 - 1 := by omega
  have hstart : (host cfg addrs).cfg = cfg ∧ (host cfg addrs).Numbered := by
    obtain ⟨as, has⟩ := host_eq cfg addrs
    rw [has]
    refine ⟨rfl, fun fd c hc => ?_⟩
    cases hc
  obtain ⟨-, hcfg, hnum⟩ := run_invariant
    (fun k k' (hk : k.cfg = cfg ∧ k.Numbered) h =>
      ⟨h.cfg.1.trans hk.1, hk.2.step (by rw [hk.1]; exact hcap) h⟩)
    (fun k hk => hk) (Sound.host cfg addrs) hstart hrun
  constructor
  · intro fd t ht hlive
    obtain ⟨st, hst, ht⟩ := tcb?_eq_some.mp ht
    obtain ⟨n, hn⟩ := (hnum fd _ (conn?_of_lookup hst ht)).seqSpace hlive
    rw [hcfg] at hn
    exact hn.inSequence hcap
  · exact step_inRange (by rw [hcfg]; exact hcap) hnum

/-- A server accepts a connection, sends three bytes and the FIN. -/
def finSentOps : List KernelOp :=
  let server : IpAddr := .v4 0x0A000001
  let client : IpAddr := .v4 0x0A000002
  let arrive (s : TcpSegment) : KernelOp := .deliver ⟨client, server, 64, .tcp s⟩
  [.call (.bind ⟨server, 80⟩ .stream), .call (.listen 1 8),
    arrive ⟨1000, 80, 5, 0, { syn := true }, 100, []⟩,
    arrive ⟨1000, 80, 6, 0x01000001, { ack := true }, 100, []⟩,
    .call (.send 2 [1, 2, 3]), .call (.shutdown 2), .egress 3]

theorem sequence_space_finSent : ∃ k t, (host .default [.v4 0x0A000001]).run finSentOps = .ok k
    ∧ k.tcb? 2 = some t ∧ t.finEmitted = true ∧ t.sendBuf = [1, 2, 3] ∧ t.InSequence .default
    ∧ ∀ op, k.step op ≠ .error .outOfRange := by
  have hrun : (((host .default [.v4 0x0A000001]).run finSentOps).toOption.bind (·.tcb? 2)).map
      (fun t => (t.finEmitted, t.sendBuf, t.aborted)) = some (true, [1, 2, 3], false) := by
    decide +kernel
  obtain ⟨t, ht, heq⟩ := Option.map_eq_some_iff.mp hrun
  obtain ⟨k, hk, ht⟩ := Option.bind_eq_some_iff.mp ht
  simp only [Prod.mk.injEq] at heq
  have hok : (host .default [.v4 0x0A000001]).run finSentOps = .ok k := by
    revert hk
    cases (host .default [.v4 0x0A000001]).run finSentOps with
    | ok k' => exact fun h => congrArg Except.ok (Option.some.inj h)
    | error e => exact fun h => by cases h
  obtain ⟨h1, h2⟩ := sequence_space (by decide) _ finSentOps hok
  exact ⟨k, t, hok, ht, heq.1, heq.2.1, h1 2 t ht heq.2.2, h2⟩

end Kernel

end Turmoil.Net
