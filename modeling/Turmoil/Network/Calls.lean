/-
# Datagrams through the kernel

What each call and each packet does to the datagrams of a kernel: a send adds one to those that go out,
a receive takes the first out of a queue, the arrival of one puts it in at most one queue, and
everything else is a frame.

This module is about everything else.  There is one lemma for each function of the kernel, and each
follows the function: the calls it makes are framed by their own lemmas, and the changes it makes
itself by those of `Network.Frame`.  When a function of the kernel changes, its lemma is the one that
breaks.

The functions that do carry datagrams are in `Network.Datagrams`.
-/
import Turmoil.Network.Frame

namespace Turmoil.Network

open Turmoil.Net
open Turmoil.Net.Kernel

variable {k k' : Kernel} {fd : Fd}

/-! ## 1. Connections -/

/-- An address the kernel picks for an outgoing packet is one of its own. -/
theorem isLocal_of_addressLike {ip a : IpAddr} (h : k.addressLike ip = some a) :
    k.isLocal a = true := by
  rw [isLocal, List.contains_iff_mem.mpr (List.mem_of_find?_eq_some h), Bool.or_true]

theorem isLocal_localhostLike (k : Kernel) (ip : IpAddr) : k.isLocal ip.localhostLike = true := by
  cases ip with
  | v4 a =>
    rw [isLocal, IpAddr.localhostLike, show IpAddr.localhost4.isLoopback = true by decide]
    rfl
  | v6 a =>
    rw [isLocal, IpAddr.localhostLike, show IpAddr.localhost6.isLoopback = true by decide]
    rfl

/-- **A socket that sends before it is bound is bound on the way**, to a port of the range and an
address of the host; its queue was empty, so no datagram changes hands.  When there is no address or no
port left, only the next port to try may have moved. -/
theorem autoBind_frame (hb : Bound k) {st : Socket} {domain : Domain} {ty : SockType} {dst : IpAddr}
    {r : Except NetError BindKey} (hst : k.lookup fd = some st) (hnone : st.bound = none)
    (h : k.autoBind fd domain ty dst = .ok (k', r)) :
    Frame k k' ∧ ∀ key, r = .ok key → ∃ st', k'.lookup fd = some st' ∧ st'.bound = some key := by
  unfold autoBind at h
  split at h
  · cases h
    exact ⟨.refl hb, fun key e => by cases e⟩
  · rename_i localIp haddr
    obtain ⟨⟨sockets, port⟩, hport, h⟩ := bind_eq_ok.mp h
    have hframe := Frame.ports hb hport
    obtain ⟨⟨ports, p⟩, -, hport⟩ := bind_eq_ok.mp hport
    cases hport
    dsimp only at h
    split at h
    · cases h
      exact ⟨hframe, fun key e => by cases e⟩
    · rename_i port
      obtain ⟨st', hst', h⟩ := bind_eq_ok.mp h
      cases h
      have hlocal : k.isLocal localIp = true := by
        unfold autoBindAddress at haddr
        split at haddr
        · cases haddr
          exact isLocal_localhostLike k dst
        · split at haddr
          · rename_i a ha
            cases haddr
            exact isLocal_of_addressLike ha
          · cases haddr
      refine ⟨hframe.trans (.bind (f := fun st => { st with bound := some ⟨domain, ty, localIp, port⟩ })
        hframe.bound hst hnone rfl rfl (.inr hlocal) rfl rfl rfl rfl rfl), fun key e => ?_⟩
      cases e
      refine ⟨{ st with bound := some ⟨domain, ty, localIp, port⟩ }, ?_, rfl⟩
      rw [lookup_modifySocket, if_pos rfl]
      exact congrArg (Option.map _) hst

/-- After a call that needs a binding there is one, whether it was there before or not. -/
theorem ensureBound_frame (hb : Bound k) {st : Socket} {ty : SockType} {dst : IpAddr}
    {r : Except NetError BindKey} (hst : k.lookup fd = some st)
    (h : k.ensureBound fd st ty dst = .ok (k', r)) :
    Frame k k' ∧ ∀ key, r = .ok key → ∃ st', k'.lookup fd = some st' ∧ st'.bound = some key := by
  unfold ensureBound at h
  split at h
  · rename_i key hkey
    cases h
    refine ⟨.refl hb, fun key' e => ?_⟩
    cases e
    exact ⟨st, hst, hkey⟩
  · exact autoBind_frame hb hst (by assumption) h

theorem insertConnection_frame (hb : Bound k) {loc rem : SocketAddr} {sockets : SocketTable}
    (h : k.sockets.insertConnection loc rem fd = .ok sockets) :
    Frame k { k with sockets := sockets } := by
  unfold SocketTable.insertConnection at h
  split at h
  · cases h
  · cases h
    exact .of_eq hb rfl ⟨[], (List.append_nil _).symm, fun _ h => absurd h List.not_mem_nil⟩ rfl rfl rfl

theorem Frame.isn (hb : Bound k) (isn : UInt32) : Frame k { k with tcpIsn := isn } :=
  .of_eq hb rfl ⟨[], (List.append_nil _).symm, fun _ h => absurd h List.not_mem_nil⟩ rfl rfl rfl

/-- A connect sets up a TCB and sends a SYN.  The queue of the socket stays as it is. -/
theorem startConnect_frame (hb : Bound k) {peer : SocketAddr} (h : k.startConnect fd peer = .ok k') :
    Frame k k' := by
  obtain ⟨src, -, h⟩ := bind_eq_ok.mp h
  obtain ⟨st, hst, h⟩ := bind_eq_ok.mp h
  obtain ⟨sockets, hconn, h⟩ := bind_eq_ok.mp h
  cases h
  have h₁ := Frame.isn hb (k.tcpIsn + 0x10000)
  have h₂ := h₁.trans (.modify (f := fun st => { st with
      tcb := some (Tcb.fresh .synSent peer k.tcpIsn defaultWindow 0), peer := some peer })
    h₁.bound fd fun _ _ => ⟨rfl, rfl⟩)
  have h₃ := h₂.trans (insertConnection_frame h₂.bound hconn)
  exact h₃.trans (.emit h₃.bound _ _ _)

/-- A connect that is polled again changes nothing: only the first poll binds, and sends the SYN. -/
theorem tcpPollConnect_frame (hb : Bound k) {peer : SocketAddr} {r : Poll (Except NetError Unit)}
    (h : k.tcpPollConnect fd peer = .ok (k', r)) : Frame k k' := by
  obtain ⟨st, hst, h⟩ := bind_eq_ok.mp h
  split at h
  · cases h
    exact .refl hb
  · obtain ⟨⟨k₁, bound⟩, h₁, h⟩ := bind_eq_ok.mp h
    have hf := (ensureBound_frame hb (expect_eq_ok.mp hst) h₁).1
    dsimp only at h
    split at h
    · cases h
      exact hf
    · obtain ⟨k₂, h₂, h⟩ := bind_eq_ok.mp h
      cases h
      exact hf.trans (startConnect_frame hf.bound h₂)

/-! ## 2. Segments -/

theorem emitRst_frame (hb : Bound k) (loc rem : SocketAddr) (s : TcpSegment) :
    Frame k (k.emitRst loc rem s) := .emit hb loc rem _

/-- An abort keeps the socket in the table: it is the application that closes it. -/
theorem abortWith_frame (hb : Bound k) {reason : AbortReason} (h : k.abortWith fd reason = .ok k') :
    Frame k k' := by
  obtain ⟨st, -, h⟩ := bind_eq_ok.mp h
  cases h
  exact .modify hb fd fun _ _ => ⟨rfl, rfl⟩

theorem pushToListener_frame (hb : Bound k) {child : Fd} {loc : SocketAddr}
    (h : k.pushToListener child loc = .ok k') : Frame k k' := by
  obtain ⟨listener, -, h⟩ := bind_eq_ok.mp h
  split at h
  · cases h
    exact .refl hb
  · obtain ⟨st, -, h⟩ := bind_eq_ok.mp h
    obtain ⟨l, -, h⟩ := bind_eq_ok.mp h
    cases h
    exact .modify hb _ fun _ _ => ⟨rfl, rfl⟩

/-- **A SYN makes a socket**, which is bound to the address the SYN was sent to.  That address is one
of the host's because only such packets reach the kernel: this is where `hloc` is needed. -/
theorem acceptSyn_frame (hb : Bound k) {loc rem : SocketAddr} {s : TcpSegment}
    (hloc : k.isLocal loc.ip = true) (h : k.acceptSyn fd loc rem s = .ok k') : Frame k k' := by
  obtain ⟨st, -, h⟩ := bind_eq_ok.mp h
  obtain ⟨listen, -, h⟩ := bind_eq_ok.mp h
  split at h
  · cases h
    exact .refl hb
  · obtain ⟨c, hc, h⟩ := bind_eq_ok.mp h
    obtain ⟨sockets, hconn, h⟩ := bind_eq_ok.mp h
    cases h
    have h₁ := Frame.open hb st.domain st.ty
    have hnew : (k.openSocket st.domain st.ty).1.lookup k.sockets.nextId
        = some (Socket.new st.domain st.ty) := by
      show (k.sockets.sockets.insert _ _).get? _ = _
      rw [IndexMap.get?_insert, if_pos rfl]
    have haddr : (BindKey.mk st.domain st.ty loc.ip loc.port).localAddr.isUnspecified = true
        ∨ k.isLocal (BindKey.mk st.domain st.ty loc.ip loc.port).localAddr = true := .inr hloc
    have h₂ : Frame k (({ k with
        sockets := (k.sockets.insert (Socket.new st.domain st.ty)).1.insertBinding
          ⟨st.domain, st.ty, loc.ip, loc.port⟩ k.sockets.nextId
        tcpIsn := k.tcpIsn + 0x10000 } : Kernel).modifySocket k.sockets.nextId fun c => { c with
          bound := some ⟨st.domain, st.ty, loc.ip, loc.port⟩
          peer := some rem
          tcb := some (Tcb.fresh .synReceived rem k.tcpIsn s.window (s.seq + 1)) }) :=
      h₁.trans (.bind h₁.bound hnew rfl rfl rfl haddr rfl rfl rfl rfl rfl)
    have h₃ := h₂.trans (insertConnection_frame h₂.bound hconn)
    exact h₃.trans (.emit h₃.bound _ _ _)

theorem handleEstablished_frame (hb : Bound k) {loc rem : SocketAddr} {tcb : Tcb} {s : TcpSegment}
    (h : k.handleEstablished fd loc rem tcb s = .ok k') : Frame k k' := by
  obtain ⟨⟨tcb', sendAck⟩, -, h⟩ := bind_eq_ok.mp h
  cases h
  have hf := Frame.setTcb hb fd tcb'
  split
  · exact hf.trans (.emit hf.bound _ _ _)
  · exact hf

/-- A segment for a connection, in every state of it. -/
theorem handleOnConnection_frame (hb : Bound k) {loc rem : SocketAddr} {s : TcpSegment}
    (h : k.handleOnConnection fd loc rem s = .ok k') : Frame k k' := by
  unfold handleOnConnection at h
  split at h
  · exact abortWith_frame hb h
  · obtain ⟨st, -, h⟩ := bind_eq_ok.mp h
    obtain ⟨tcb, -, h⟩ := bind_eq_ok.mp h
    split at h
    · split at h
      · cases h
        have hf := Frame.setTcb hb fd (tcb.onSynAck s)
        exact hf.trans (.emit hf.bound _ _ _)
      · cases h
        exact .refl hb
    · split at h
      · split at h
        · cases h
          exact .refl hb
        · have hf := Frame.setTcb hb fd (tcb.onHandshakeAck s)
          exact hf.trans (pushToListener_frame hf.bound h)
      · cases h
        exact .refl hb
    all_goals first
      | exact handleEstablished_frame hb h
      | (cases h; exact .refl hb)

/-- **No segment touches a datagram**, whether it finds a connection, a listener or nobody. -/
theorem tcpDeliver_frame (hb : Bound k) {pkt : Packet} {s : TcpSegment}
    (hdst : k.isLocal pkt.dst = true) (h : k.tcpDeliver pkt s = .ok k') : Frame k k' := by
  unfold tcpDeliver at h
  dsimp only at h
  split at h
  · exact handleOnConnection_frame hb h
  · split at h
    · obtain ⟨listener, -, h⟩ := bind_eq_ok.mp h
      split at h
      · exact acceptSyn_frame hb hdst h
      · cases h
        exact emitRst_frame hb _ _ s
    · cases h
      split
      · exact .refl hb
      · exact emitRst_frame hb _ _ s

/-! ## 3. Closing, data and sweeps -/

/-- A loop over sockets whose body is framed.  The body may panic, and then the loop has no frame to
show; what it has done until then is not looked at. -/
theorem foldlM_frame {f : Kernel → Fd → Except Panic Kernel}
    (hf : ∀ fd {k k'}, Bound k → f k fd = .ok k' → Frame k k') : ∀ {l : List Fd} {k k' : Kernel},
    Bound k → l.foldlM f k = .ok k' → Frame k k' := by
  intro l
  induction l with
  | nil =>
    intro k k' hb h
    cases h
    exact .refl hb
  | cons fd l ih =>
    intro k k' hb h
    rw [List.foldlM_cons] at h
    obtain ⟨k₁, h₁, h⟩ := bind_eq_ok.mp h
    have hframe := hf fd hb h₁
    exact hframe.trans (ih hframe.bound h)

theorem resetChild_frame (fd : Fd) {k k' : Kernel} (hb : Bound k) (h : k.resetChild fd = .ok k') :
    Frame k k' := by
  unfold resetChild at h
  split at h
  · cases h
    exact .refl hb
  · split at h
    · cases h
      exact .remove hb fd
    · obtain ⟨loc, -, h⟩ := bind_eq_ok.mp h
      cases h
      exact (Frame.emit hb _ _ _).trans (.remove (Frame.emit hb _ _ _).bound fd)

/-- Closing a listener resets the connections nobody has accepted.  Closing any other socket removes
it, or leaves it to finish its connection. -/
theorem close_frame (hb : Bound k) (h : k.close fd = .ok k') : Frame k k' := by
  obtain ⟨⟨k₁, reap⟩, h₁, h⟩ := bind_eq_ok.mp h
  have hf : Frame k k₁ := by
    unfold onClose at h₁
    split at h₁
    · cases h₁
      exact .refl hb
    · split at h₁
      · obtain ⟨loc, -, h₁⟩ := bind_eq_ok.mp h₁
        obtain ⟨k₂, h₂, h₁⟩ := bind_eq_ok.mp h₁
        cases h₁
        exact foldlM_frame resetChild_frame hb h₂
      · split at h₁
        · split at h₁
          · obtain ⟨loc, -, h₁⟩ := bind_eq_ok.mp h₁
            cases h₁
            exact .emit hb _ _ _
          · cases h₁
            exact .modify hb fd fun _ _ => ⟨rfl, rfl⟩
        · cases h₁
          exact .refl hb
      · cases h₁
        exact .refl hb
  cases h
  split
  · exact hf.trans (.remove hf.bound fd)
  · exact hf

theorem reapClosed_frame (hb : Bound k) : Frame k k.reapClosed := by
  unfold reapClosed
  generalize (k.sockets.sockets.entries.filter fun e => reapable e.2).map Prod.fst = fds
  induction fds generalizing k with
  | nil => exact .refl hb
  | cons fd fds ih => exact (Frame.remove hb fd).trans (ih (Frame.remove hb fd).bound)

theorem tcpPollSend_frame (hb : Bound k) (buf : List UInt8) : Frame k (k.tcpPollSend fd buf).1 := by
  unfold tcpPollSend
  split
  · exact .refl hb
  · split
    · exact .refl hb
    · exact .setTcb hb fd _

theorem tcpPollShutdownWrite_frame (hb : Bound k) : Frame k (k.tcpPollShutdownWrite fd).1 := by
  unfold tcpPollShutdownWrite
  split
  · exact .refl hb
  · split
    · exact .refl hb
    · exact .setTcb hb fd _

theorem tcpPollRecvVectored_frame (hb : Bound k) {lens : List Nat}
    {r : Poll (Except NetError (List UInt8))} (h : k.tcpPollRecvVectored fd lens = .ok (k', r)) :
    Frame k k' := by
  unfold tcpPollRecvVectored at h
  split at h
  · cases h
    exact .refl hb
  · split at h
    · cases h
      exact .refl hb
    · dsimp only at h
      split at h
      · cases h
        exact .refl hb
      · obtain ⟨loc, -, h⟩ := bind_eq_ok.mp h
        cases h
        split
        · exact (Frame.setTcb hb fd _).trans (.emit (Frame.setTcb hb fd _).bound _ _ _)
        · exact .setTcb hb fd _

theorem countAll_frame : ∀ {fds : List Fd} {k k' : Kernel} {resend abort : List Fd}, Bound k →
    countAll k fds = .ok (k', resend, abort) → Frame k k' := by
  intro fds
  induction fds with
  | nil =>
    intro k k' resend abort hb h
    cases h
    exact .refl hb
  | cons fd fds ih =>
    intro k k' resend abort hb h
    obtain ⟨⟨k₁, action⟩, h₁, h⟩ := bind_eq_ok.mp h
    obtain ⟨⟨k₂, resend', abort'⟩, h₂, h⟩ := bind_eq_ok.mp h
    cases h
    obtain ⟨tcb, -, h₁⟩ := bind_eq_ok.mp h₁
    cases h₁
    exact (Frame.setTcb hb fd _).trans (ih (Frame.setTcb hb fd _).bound h₂)

/-- The sweep resends segments and aborts connections: both are TCP. -/
theorem checkRetx_frame (hb : Bound k) (h : k.checkRetx = .ok k') : Frame k k' := by
  obtain ⟨⟨k₁, resend, abort⟩, h₁, h⟩ := bind_eq_ok.mp h
  obtain ⟨k₂, h₂, h⟩ := bind_eq_ok.mp h
  have hf₁ := countAll_frame hb h₁
  have hf₂ := hf₁.trans (foldlM_frame (fun fd k k' hb hk => by
    obtain ⟨st, -, hk⟩ := bind_eq_ok.mp hk
    obtain ⟨tcb, -, hk⟩ := bind_eq_ok.mp hk
    obtain ⟨loc, -, hk⟩ := bind_eq_ok.mp hk
    obtain ⟨seg, -, hk⟩ := bind_eq_ok.mp hk
    cases hk
    exact .emit hb _ _ _) hf₁.bound h₂)
  exact hf₂.trans (foldlM_frame (fun fd k k' hb hk => abortWith_frame hb hk) hf₂.bound h)

theorem segmentAll_frame (hb : Bound k) (h : k.segmentAll = .ok k') : Frame k k' :=
  foldlM_frame (fun fd k k' hb hk => by
    obtain ⟨st, -, hk⟩ := bind_eq_ok.mp hk
    obtain ⟨loc, -, hk⟩ := bind_eq_ok.mp hk
    obtain ⟨tcb, -, hk⟩ := bind_eq_ok.mp hk
    obtain ⟨⟨tcb', segs⟩, -, hk⟩ := bind_eq_ok.mp hk
    cases hk
    exact (Frame.setTcb hb fd tcb').trans (.emitAll (Frame.setTcb hb fd tcb').bound _ _ _)) hb h

/-! ## 4. Sockets -/

/-- A new socket that is bound at once. -/
theorem bindAt_frame (hb : Bound k) {key : BindKey} {r : Except NetError Fd}
    (haddr : key.localAddr.isUnspecified = true ∨ k.isLocal key.localAddr = true)
    (h : k.bindAt key = (k', r)) : Frame k k' := by
  unfold bindAt at h
  dsimp only at h
  split at h
  · cases h
    exact .refl hb
  · cases h
    have h₁ := Frame.open hb key.domain key.ty
    have hnew : (k.openSocket key.domain key.ty).1.lookup k.sockets.nextId
        = some (Socket.new key.domain key.ty) := by
      show (k.sockets.sockets.insert _ _).get? _ = _
      rw [IndexMap.get?_insert, if_pos rfl]
    exact h₁.trans (.bind h₁.bound hnew rfl rfl rfl haddr rfl rfl rfl rfl rfl)

/-- A bind is refused, or adds a socket that has received nothing.  An address that is not the host's
is refused, so what is bound is the host's or unspecified. -/
theorem bind_frame (hb : Bound k) {addr : SocketAddr} {ty : SockType} {r : Except NetError Fd}
    (h : k.bind addr ty = .ok (k', r)) : Frame k k' := by
  unfold Kernel.bind at h
  dsimp only at h
  split at h
  · cases h
    exact .refl hb
  · rename_i haddr
    have hlocal : addr.ip.isUnspecified = true ∨ k.isLocal addr.ip = true := by
      cases hany : addr.ip.isUnspecified
      · exact .inr (by simpa [hany] using haddr)
      · exact .inl rfl
    split at h
    · obtain ⟨⟨sockets, port⟩, hport, h⟩ := bind_eq_ok.mp h
      have hf := Frame.ports hb hport
      dsimp only at h
      split at h
      · cases h
        exact hf
      · exact hf.trans (bindAt_frame hf.bound hlocal (Except.ok.inj h))
    · exact bindAt_frame hb hlocal (Except.ok.inj h)

theorem setOption_frame (hb : Bound k) (opt : SocketOption) : Frame k (k.setOption fd opt).1 := by
  unfold setOption
  split
  · exact .refl hb
  · refine .modify hb fd fun st _ => ?_
    cases opt <;> exact ⟨rfl, rfl⟩

theorem pollConnect_frame (hb : Bound k) {peer : SocketAddr} {r : Poll (Except NetError Unit)}
    (h : k.pollConnect fd peer = .ok (k', r)) : Frame k k' := by
  unfold pollConnect at h
  split at h
  · cases h
    exact .refl hb
  · rename_i st hst
    split at h
    · cases h
      exact .refl hb
    · split at h
      · obtain ⟨⟨k₁, bound⟩, h₁, h⟩ := bind_eq_ok.mp h
        have hf := (ensureBound_frame hb hst h₁).1
        dsimp only at h
        split at h
        · cases h
          exact hf
        · cases h
          exact hf.trans (.modify hf.bound fd fun _ _ => ⟨rfl, rfl⟩)
      · exact tcpPollConnect_frame hb h
      · cases h

theorem listen_frame (hb : Bound k) {backlog : Nat} {r : Except NetError Unit}
    (h : k.listen fd backlog = .ok (k', r)) : Frame k k' := by
  unfold Kernel.listen at h
  split at h
  · cases h
    exact .refl hb
  · split at h
    · cases h
    · split at h
      · cases h
      · cases h
        exact .modify hb fd fun _ _ => ⟨rfl, rfl⟩

theorem pollAccept_frame (hb : Bound k) {r : Poll (Except NetError (Fd × SocketAddr))}
    (h : k.pollAccept fd = .ok (k', r)) : Frame k k' := by
  unfold pollAccept at h
  split at h
  · cases h
    exact .refl hb
  · obtain ⟨l, -, h⟩ := bind_eq_ok.mp h
    split at h
    · cases h
      exact .refl hb
    · obtain ⟨c, -, h⟩ := bind_eq_ok.mp h
      obtain ⟨tcb, -, h⟩ := bind_eq_ok.mp h
      cases h
      exact .modify hb fd fun _ _ => ⟨rfl, rfl⟩

end Turmoil.Network
