/-
# Every call is a sequence of steps

Each function of the kernel, read as a sequence of `KStep`s.  What a call can do to the
connections is then known once and for all, and so is which acts it takes: `deliver` brings in the
one segment, the calls of the application act on their own descriptor, and `egress` sweeps.
-/
import Turmoil.Net.Steps

namespace Turmoil.Net

namespace Kernel

variable {σ : Scope} {k k' : Kernel} {fd : Fd}

/-! ## 1. The accessors after each change -/

theorem emitAll_eq (k : Kernel) (src dst : SocketAddr) (segs : List TcpSegment) :
    k.emitAll src dst segs
      = { k with outbound := k.outbound ++ segs.map fun s => ⟨src.ip, dst.ip, 64, .tcp s⟩ } := by
  induction segs generalizing k with
  | nil => simp [emitAll]
  | cons s segs ih =>
    rw [emitAll, List.foldl_cons]
    exact (ih (k.emit src dst s)).trans (by simp [emit, pushOutbound])

@[simp] theorem conn?_emitAll (k : Kernel) (src dst : SocketAddr) (segs : List TcpSegment)
    (g : Fd) : (k.emitAll src dst segs).conn? g = k.conn? g := by
  rw [emitAll_eq]
  rfl

theorem conn?_modifySocket (k : Kernel) (fd g : Fd) (f : Socket → Socket) :
    (k.modifySocket fd f).conn? g = if g = fd
      then ((k.lookup fd).map f).bind fun st => st.tcb.map fun t => ⟨st.bound, t, st.fdClosed⟩
      else k.conn? g := by
  unfold conn?
  rw [lookup_modifySocket]
  split <;> rfl

theorem conn?_putTcb {c : Conn} (hc : k.conn? fd = some c) (t : Tcb) (closed : Bool) (g : Fd) :
    (k.putTcb fd t closed).conn? g = if g = fd then some ⟨c.bound, t, closed⟩ else k.conn? g := by
  obtain ⟨st, hst, -, hb, -⟩ := conn?_eq_some.mp hc
  rw [putTcb, conn?_modifySocket, hst, ← hb]
  rfl

theorem setTcb_eq_putTcb {st : Socket} (hst : k.lookup fd = some st) (t : Tcb) :
    k.setTcb fd t = k.putTcb fd t st.fdClosed := by
  unfold setTcb putTcb modifySocket SocketTable.modify
  rw [IndexMap.modify_congr]
  intro v hv
  cases hst.symm.trans hv
  rfl

@[simp] theorem conn?_removeSocket (k : Kernel) (fd g : Fd) :
    (k.removeSocket fd).conn? g = if g = fd then none else k.conn? g := by
  unfold conn?
  rw [lookup_removeSocket]
  split <;> rfl

/-! ## 2. Quiet changes -/

theorem Quiet.of_lookup (hcfg : k'.cfg = k.cfg) (haddr : k'.addresses = k.addresses)
    (hout : k'.outbound = k.outbound) (hconn : k'.sockets.connections = k.sockets.connections)
    (hid : k'.sockets.nextId = k.sockets.nextId) (hl : ∀ g, k'.lookup g = k.lookup g) :
    Quiet k k' where
  cfg := hcfg
  addresses := haddr
  outbound := hout
  connections := hconn
  nextId := Nat.le_of_eq hid.symm
  conn g := by rw [conn?, hl, conn?]
  known g st' h := Or.inl ⟨st', by rw [← hl, h]⟩
  bound g st' key h hb := Or.inl ⟨st', by rw [← hl, h], hb⟩
  streams g st' h hs := Or.inr ⟨st', by rw [← hl, h], rfl, hs⟩
  queued g c hc := by
    obtain ⟨st, l, hst, hl', hmem⟩ := SocketTable.mem_ready.mp hc
    exact Or.inl (SocketTable.mem_ready.mpr ⟨st, l, (hl g).symm.trans hst, hl', hmem⟩)

/-- Changing a socket but for its connection. -/
theorem Quiet.modifySocket (k : Kernel) (fd : Fd) {f : Socket → Socket}
    (hf : ∀ st, k.lookup fd = some st → (f st).tcb = st.tcb ∧ (st.tcb ≠ none →
      (f st).bound = st.bound ∧ (f st).fdClosed = st.fdClosed))
    (hb : ∀ st key, k.lookup fd = some st → (f st).bound = some key → st.bound = some key
      ∨ key.localAddr.isUnspecified = true ∨ k.isLocal key.localAddr = true)
    (hl : ∀ st, k.lookup fd = some st → (f st).ty = st.ty ∧ ((f st).listen.isSome = true →
      st.listen.isSome = true ∨ st.ty = .stream))
    (hr : ∀ st l, k.lookup fd = some st → (f st).listen = some l → ∀ c ∈ l.ready,
      c ∈ k.sockets.ready fd ∨ ∃ x, k.conn? c = some x ∧ x.tcb.state.handshake = false) :
    Quiet k (k.modifySocket fd f) where
  cfg := rfl
  addresses := rfl
  outbound := rfl
  connections := rfl
  nextId := Nat.le_refl _
  conn g := by
    rw [conn?_modifySocket]
    split
    · rename_i hg
      subst hg
      unfold conn?
      cases hst : k.lookup g with
      | none => rfl
      | some st =>
        obtain ⟨h1, h2⟩ := hf st hst
        simp only [Option.map_some, Option.bind_some, h1]
        cases ht : st.tcb with
        | none => rfl
        | some t =>
          obtain ⟨h3, h4⟩ := h2 (by rw [ht]; simp)
          rw [h3, h4]
    · rfl
  known g st' h := by
    rw [lookup_modifySocket] at h
    split at h
    · rename_i hg
      subst hg
      obtain ⟨st, hst, -⟩ := Option.map_eq_some_iff.mp h
      exact Or.inl ⟨st, hst⟩
    · exact Or.inl ⟨st', h⟩
  bound g st' key h hkey := by
    rw [lookup_modifySocket] at h
    split at h
    · rename_i hg
      subst hg
      obtain ⟨st, hst, rfl⟩ := Option.map_eq_some_iff.mp h
      rcases hb st key hst hkey with h1 | h1
      · exact Or.inl ⟨st, hst, h1⟩
      · exact Or.inr h1
    · exact Or.inl ⟨st', h, hkey⟩
  streams g st' h hs := by
    rw [lookup_modifySocket] at h
    split at h
    · rename_i hg
      subst hg
      obtain ⟨st, hst, rfl⟩ := Option.map_eq_some_iff.mp h
      obtain ⟨hty, hlisten⟩ := hl st hst
      rw [(hf st hst).1, Bool.or_eq_true] at hs
      rw [hty]
      rcases hs with hs | hs
      · exact Or.inr ⟨st, hst, rfl, by rw [hs, Bool.true_or]⟩
      · rcases hlisten hs with h1 | h1
        · exact Or.inr ⟨st, hst, rfl, by rw [h1, Bool.or_true]⟩
        · exact Or.inl h1
    · exact Or.inr ⟨st', h, rfl, hs⟩
  queued g c hc := by
    obtain ⟨st', l, hst', hl', hmem⟩ := SocketTable.mem_ready.mp hc
    replace hst' : (k.modifySocket fd f).lookup g = some st' := hst'
    rw [lookup_modifySocket] at hst'
    split at hst'
    · rename_i hg
      subst hg
      obtain ⟨st, hst, rfl⟩ := Option.map_eq_some_iff.mp hst'
      exact hr st l hst hl' c hmem
    · exact Or.inl (SocketTable.mem_ready.mpr ⟨st', l, hst', hl', hmem⟩)

/-- A socket whose accept queue stays the same queues nothing. -/
theorem queued_of_listen_eq {f : Socket → Socket} (hl : ∀ st, (f st).listen = st.listen) :
    ∀ st l, k.lookup fd = some st → (f st).listen = some l → ∀ c ∈ l.ready,
      c ∈ k.sockets.ready fd ∨ ∃ x, k.conn? c = some x ∧ x.tcb.state.handshake = false :=
  fun st l hst hl' _ hc =>
    Or.inl (SocketTable.mem_ready.mpr ⟨st, l, hst, (hl st).symm.trans hl', hc⟩)

/-- Changing nothing but a socket's queues and its options. -/
theorem Quiet.modifySide (k : Kernel) (fd : Fd) {f : Socket → Socket}
    (hf : ∀ st, (f st).tcb = st.tcb ∧ (f st).bound = st.bound ∧ (f st).fdClosed = st.fdClosed)
    (hl : ∀ st, (f st).ty = st.ty ∧ (f st).listen = st.listen) :
    Quiet k (k.modifySocket fd f) :=
  Quiet.modifySocket k fd (fun st _ => ⟨(hf st).1, fun _ => (hf st).2⟩)
    (fun st _ _ hkey => Or.inl ((hf st).2.1 ▸ hkey))
    (fun st _ => ⟨(hl st).1, fun h => Or.inl ((hl st).2 ▸ h)⟩)
    (queued_of_listen_eq fun st => (hl st).2)

theorem Quiet.insertBinding (k : Kernel) (key : BindKey) (fd : Fd) :
    Quiet k { k with sockets := k.sockets.insertBinding key fd } :=
  Quiet.of_lookup rfl rfl rfl rfl rfl fun _ => rfl

theorem Quiet.openSocket (hfresh : k.lookup k.sockets.nextId = none) (domain : Domain)
    (ty : SockType) : Quiet k (k.openSocket domain ty).1 := by
  have hl : ∀ g, (k.openSocket domain ty).1.lookup g
      = if g = k.sockets.nextId then some (Socket.new domain ty) else k.lookup g := by
    intro g
    simp [Kernel.openSocket, Kernel.lookup, SocketTable.insert, SocketTable.get]
  refine ⟨rfl, rfl, rfl, rfl, Nat.le_succ _, fun g => ?_, fun g st' h => ?_,
    fun g st' key h hb => ?_, fun g st' h hs => ?_, fun g c hc => Or.inl ?_⟩
  · unfold conn?
    rw [hl]
    split
    · rename_i hg
      rw [hg, hfresh]
      rfl
    · rfl
  · rw [hl] at h
    split at h
    · rename_i hg
      exact Or.inr ⟨Nat.le_of_eq hg.symm, by rw [hg]; exact Nat.lt_succ_self _⟩
    · exact Or.inl ⟨st', h⟩
  · rw [hl] at h
    split at h
    · cases h
      cases hb
    · exact Or.inl ⟨st', h, hb⟩
  · rw [hl] at h
    split at h
    · cases h
      cases hs
    · exact Or.inr ⟨st', h, rfl, hs⟩
  · obtain ⟨st', l, hst', hl', hmem⟩ := SocketTable.mem_ready.mp hc
    rw [show (k.openSocket domain ty).1.sockets.get g = (k.openSocket domain ty).1.lookup g from rfl,
      hl] at hst'
    split at hst'
    · cases hst'
      cases hl'
    · exact SocketTable.mem_ready.mpr ⟨st', l, hst', hl', hmem⟩

/-! ## 3. Segments that arrive -/

/-- An act that leaves the descriptor as it is. -/
theorem KStep.of_act {st : Socket} {t t' : Tcb} {loc rem : SocketAddr} {a : TcbAct}
    {segs : List TcpSegment} (hst : k.lookup fd = some st) (ht : st.tcb = some t)
    (ha : t.act k.cfg loc rem a = .ok (t', segs))
    (hin : ∀ s, a = .inbound s → k.sockets.findConnection loc rem = some fd ∧ σ.arrives loc rem s)
    (hq : (∀ s, a ≠ .inbound s) → σ.acts fd a)
    (hloc : segs ≠ [] → (∀ s, a ≠ .inbound s) → boundEndpoint st = .ok loc ∧ t.peer = rem)
    (hfit : a.Fits t) : KStep σ k ((k.setTcb fd t').emitAll loc rem segs) := by
  rw [setTcb_eq_putTcb hst]
  refine KStep.act (conn?_of_lookup hst ht) ha hin hq (fun h1 h2 => ?_) (Or.inl rfl) hfit
  obtain ⟨h3, h4⟩ := hloc h1 h2
  refine ⟨?_, h4⟩
  obtain ⟨key, hkey, hk⟩ := bind_eq_ok.mp h3
  cases hk
  rw [Conn.loc?, expect_eq_ok.mp hkey]
  rfl

theorem pushToListener_quiet {child : Fd} {loc : SocketAddr} {x : Conn}
    (hx : k.conn? child = some x) (hpast : x.tcb.state.handshake = false)
    (h : k.pushToListener child loc = .ok k') : Quiet k k' := by
  obtain ⟨o, -, h⟩ := bind_eq_ok.mp h
  cases o with
  | none =>
    cases h
    exact Quiet.of_lookup rfl rfl rfl rfl rfl fun _ => rfl
  | some listenerFd =>
    obtain ⟨st, -, h⟩ := bind_eq_ok.mp h
    obtain ⟨_, -, h⟩ := bind_eq_ok.mp h
    cases h
    refine Quiet.modifySocket k listenerFd (fun _ _ => ⟨rfl, fun _ => ⟨rfl, rfl⟩⟩)
      (fun _ _ _ => Or.inl) (fun st _ => ⟨rfl, fun h => Or.inl ?_⟩) fun st l hst hl c hc => ?_
    · rwa [Option.isSome_map] at h
    · obtain ⟨l', hl', rfl⟩ := Option.map_eq_some_iff.mp hl
      rcases List.mem_append.mp hc with hc | hc
      · exact Or.inl (SocketTable.mem_ready.mpr ⟨st, l', hst, hl', hc⟩)
      · cases List.mem_singleton.mp hc
        exact Or.inr ⟨x, hx, hpast⟩

theorem handleEstablished_eq {loc rem : SocketAddr} {t : Tcb} {s : TcpSegment}
    (h : k.handleEstablished fd loc rem t s = .ok k') :
    ∃ t' sendAck, t.handleEstablished k.cfg.recvBufCap s = .ok (t', sendAck)
      ∧ k' = (k.setTcb fd t').emitAll loc rem
        (if sendAck then [t'.ackSegment k.cfg.recvBufCap loc rem] else []) := by
  obtain ⟨⟨t', sendAck⟩, ht, h⟩ := bind_eq_ok.mp h
  refine ⟨t', sendAck, ht, ?_⟩
  cases h
  cases sendAck <;> rfl

/-- Ending a connection, if the socket has one. -/
theorem abortWith_cases {reason : AbortReason} (h : k.abortWith fd reason = .ok k') :
    (k.conn? fd = none ∧ Quiet k k')
      ∨ ∃ st t, k.lookup fd = some st ∧ st.tcb = some t ∧ k' = k.setTcb fd (t.abort reason) := by
  obtain ⟨st, hst, h⟩ := bind_eq_ok.mp h
  replace hst := expect_eq_ok.mp hst
  cases h
  cases ht : st.tcb with
  | none =>
    refine Or.inl ⟨?_, Quiet.modifySocket k fd (fun st' hst' => ?_)
      (fun st' key hst' hb => Or.inl hb) (fun st' hst' => ⟨rfl, Or.inl⟩)
      (queued_of_listen_eq fun _ => rfl)⟩
    · rw [conn?, hst, Option.bind_some, ht, Option.map_none]
    · cases hst.symm.trans hst'
      exact ⟨by rw [ht]; rfl, fun hne => absurd ht hne⟩
  | some t =>
    refine Or.inr ⟨st, t, hst, ht, ?_⟩
    simp only [setTcb, modifySocket, SocketTable.modify]
    rw [IndexMap.modify_congr]
    intro v hv
    cases hst.symm.trans hv
    rw [ht]
    rfl

/-- Ending a connection: by a reset that arrives, or for want of an answer. -/
theorem abortWith_steps {reason : AbortReason} {a : TcbAct} {l r : SocketAddr}
    (ha : ∀ t : Tcb, t.act k.cfg l r a = .ok (t.abort reason, []))
    (hin : ∀ s, a = .inbound s → k.sockets.findConnection l r = some fd ∧ σ.arrives l r s)
    (hq : (∀ s, a ≠ .inbound s) → σ.acts fd a) (hfit : ∀ t, a.Fits t)
    (h : k.abortWith fd reason = .ok k') : KSteps σ k k' := by
  rcases abortWith_cases h with ⟨-, hquiet⟩ | ⟨st, t, hst, ht, rfl⟩
  · exact .single (.quiet hquiet)
  · have hstep : KStep σ k ((k.setTcb fd (t.abort reason)).emitAll l r []) :=
      KStep.of_act hst ht (ha t) hin hq (fun h => absurd rfl h) (hfit t)
    exact .single hstep

theorem setTcb_self {st : Socket} {t : Tcb} (hst : k.lookup fd = some st) (ht : st.tcb = some t) :
    k.setTcb fd t = k := by
  have hs : k.sockets.sockets.modify fd (fun st => { st with tcb := some t })
      = k.sockets.sockets := by
    refine IndexMap.modify_self fun v hv => ?_
    cases hst.symm.trans hv
    rw [← ht]
  unfold setTcb modifySocket SocketTable.modify
  rw [hs]

/-- What becomes of a segment the index gives to a connection. -/
theorem handleOnConnection_cases {loc rem : SocketAddr} {s : TcpSegment}
    (h : k.handleOnConnection fd loc rem s = .ok k') :
    (k.conn? fd = none ∧ Quiet k k')
      ∨ ∃ st t t' segs, k.lookup fd = some st ∧ st.tcb = some t
        ∧ t.onSegment k.cfg.recvBufCap loc rem s = .ok (t', segs)
        ∧ Quiet ((k.setTcb fd t').emitAll loc rem segs) k' := by
  have hsame : ∀ k : Kernel, Quiet k k :=
    fun k => Quiet.of_lookup rfl rfl rfl rfl rfl fun _ => rfl
  unfold handleOnConnection at h
  split at h
  · rename_i hrst
    rcases abortWith_cases h with hquiet | ⟨st, t, hst, ht, rfl⟩
    · exact Or.inl hquiet
    · refine Or.inr ⟨st, t, t.abort .reset, [], hst, ht, ?_, hsame _⟩
      rw [Tcb.onSegment, if_pos hrst]
  · rename_i hrst
    obtain ⟨st, hst, h⟩ := bind_eq_ok.mp h
    obtain ⟨t, ht, h⟩ := bind_eq_ok.mp h
    replace hst := expect_eq_ok.mp hst
    replace ht := expect_eq_ok.mp ht
    refine Or.inr ?_
    -- a segment that is dropped
    have hdrop : Quiet ((k.setTcb fd t).emitAll loc rem []) k := by
      rw [setTcb_self hst ht]
      exact hsame k
    cases hs : t.state with
    | synSent =>
      simp only [hs] at h
      split at h
      · rename_i hsyn
        cases h
        exact ⟨st, t, t.onSynAck s, [⟨loc.port, rem.port, t.sndNxt, s.seq + 1,
          { ack := true }, advertisedWindow k.cfg.recvBufCap 0, []⟩], hst, ht,
          by simp [Tcb.onSegment, hrst, hs, hsyn], hsame _⟩
      · rename_i hsyn
        cases h
        exact ⟨st, t, t, [], hst, ht, by simp [Tcb.onSegment, hrst, hs, hsyn], hdrop⟩
    | synReceived =>
      simp only [hs] at h
      split at h
      · rename_i hack
        split at h
        · rename_i hne
          cases h
          exact ⟨st, t, t, [], hst, ht, by simp [Tcb.onSegment, hrst, hs, hack, hne], hdrop⟩
        · rename_i hne
          have hx := conn?_putTcb (conn?_of_lookup hst ht) (t.onHandshakeAck s) st.fdClosed fd
          rw [if_pos rfl, ← setTcb_eq_putTcb hst] at hx
          exact ⟨st, t, t.onHandshakeAck s, [], hst, ht,
            by simp [Tcb.onSegment, hrst, hs, hack, hne], pushToListener_quiet hx rfl h⟩
      · rename_i hack
        cases h
        exact ⟨st, t, t, [], hst, ht, by simp [Tcb.onSegment, hrst, hs, hack], hdrop⟩
    | closed =>
      simp only [hs] at h
      cases h
      exact ⟨st, t, t, [], hst, ht, by simp [Tcb.onSegment, hrst, hs], hdrop⟩
    | _ =>
      simp only [hs] at h
      obtain ⟨t', sendAck, ht', rfl⟩ := handleEstablished_eq h
      refine ⟨st, t, t', _, hst, ht, ?_, hsame _⟩
      simp only [Tcb.onSegment, hrst, hs, Bool.false_eq_true, if_false]
      rw [ht']
      rfl

/-- A segment the index gives to a connection. -/
theorem handleOnConnection_steps {loc rem : SocketAddr} {s : TcpSegment}
    (hf : k.sockets.findConnection loc rem = some fd) (hin : σ.arrives loc rem s)
    (h : k.handleOnConnection fd loc rem s = .ok k') : KSteps σ k k' := by
  rcases handleOnConnection_cases h with ⟨-, hquiet⟩ | ⟨st, t, t', segs, hst, ht, ha, hquiet⟩
  · exact .single (.quiet hquiet)
  · refine .tail (.single (KStep.of_act (a := .inbound s) hst ht ha ?_ (fun h => absurd rfl (h s))
      (fun _ h => absurd rfl (h s)) trivial)) (.quiet hquiet)
    intro s' hs'
    cases hs'
    exact ⟨hf, hin⟩

/-- From the new table to `Opened`: one socket is new or changed, the rest is as it was. -/
theorem Opened.of_lookup (st : Socket) {t : Tcb} {loc : SocketAddr} {seg : TcpSegment}
    (hcfg : k'.cfg = k.cfg) (haddr : k'.addresses = k.addresses)
    (hout : k'.outbound = k.outbound ++ [⟨loc.ip, t.peer.ip, 64, .tcp seg⟩])
    (hconn : k'.sockets.connections = k.sockets.connections.insert (loc, t.peer) fd)
    (hid : k.sockets.nextId ≤ k'.sockets.nextId)
    (hl : ∀ g, k'.lookup g = if g = fd then some st else k.lookup g) (ht : st.tcb = some t)
    (hb : ∃ key, st.bound = some key ∧ loc = ⟨key.localAddr, key.localPort⟩)
    (hs : st.ty = .stream
      ∨ ∃ g st', k.lookup g = some st' ∧ st'.ty = st.ty ∧ st'.listen.isSome = true)
    (hr : ∀ l, st.listen = some l → ∃ st', k.lookup fd = some st' ∧ st'.listen = some l)
    (hconc : loc.ip.isUnspecified = false) :
    Opened k k' fd ⟨st.bound, t, st.fdClosed⟩ loc seg where
  cfg := hcfg
  addresses := haddr
  outbound := hout
  connections := hconn
  nextId := hid
  conn g := by
    unfold conn?
    rw [hl]
    split
    · rw [Option.bind_some, ht, Option.map_some]
    · rfl
  known g st' hg h := by
    rwa [hl, if_neg hg] at h
  bound st' h := by
    rw [hl, if_pos rfl] at h
    cases h
    rfl
  streams st' h := by
    rw [hl, if_pos rfl] at h
    cases h
    exact hs
  queued g c hc := by
    obtain ⟨st1, l, hst1, hl1, hmem⟩ := SocketTable.mem_ready.mp hc
    rw [show k'.sockets.get g = k'.lookup g from rfl, hl] at hst1
    split at hst1
    · rename_i hg
      subst hg
      cases hst1
      obtain ⟨st', hst', hl'⟩ := hr l hl1
      exact SocketTable.mem_ready.mpr ⟨st', l, hst', hl', hmem⟩
    · exact SocketTable.mem_ready.mpr ⟨st1, l, hst1, hl1, hmem⟩
  endpoint := by
    obtain ⟨key, hkey, rfl⟩ := hb
    rw [Conn.loc?, hkey]
    rfl
  concrete := hconc

theorem Opened.connected {c : Conn} {loc : SocketAddr} {seg : TcpSegment}
    (h : Opened k k' fd c loc seg) : k'.Connected loc c.tcb.peer fd :=
  ⟨c, by rw [h.conn, if_pos rfl], h.endpoint, rfl⟩

/-- A SYN at a listener is dropped, or sets up a child. -/
theorem acceptSyn_cases {listener : Fd} {loc rem : SocketAddr} {s : TcpSegment}
    (h : k.acceptSyn listener loc rem s = .ok k') :
    k' = k ∨ ∃ key, k'.sockets.nextId = k.sockets.nextId + 1
      ∧ Opened k k' k.sockets.nextId
        ⟨some key, Tcb.fresh .synReceived rem k.tcpIsn s.window (s.seq + 1), false⟩
        loc ⟨loc.port, rem.port, k.tcpIsn, s.seq + 1, { syn := true, ack := true }, defaultWindow,
          []⟩ := by
  obtain ⟨st, hst, h⟩ := bind_eq_ok.mp h
  obtain ⟨listen, hl, h⟩ := bind_eq_ok.mp h
  split at h
  · cases h
    exact Or.inl rfl
  · obtain ⟨_, -, h⟩ := bind_eq_ok.mp h
    obtain ⟨sockets, hs, h⟩ := bind_eq_ok.mp h
    unfold SocketTable.insertConnection at hs
    split at hs
    · cases hs
    · rename_i hconc
      cases hs
      cases h
      -- the child's socket, and all others
      refine Or.inr ⟨⟨st.domain, st.ty, loc.ip, loc.port⟩, rfl, ?_⟩
      refine Opened.of_lookup
        ({ Socket.new st.domain st.ty with
          bound := some ⟨st.domain, st.ty, loc.ip, loc.port⟩
          peer := some rem
          tcb := some (Tcb.fresh .synReceived rem k.tcpIsn s.window (s.seq + 1)) })
        rfl rfl rfl rfl (Nat.le_succ _) (fun g => ?_) rfl ⟨_, rfl, rfl⟩
        (Or.inr ⟨listener, st, expect_eq_ok.mp hst, rfl, by rw [expect_eq_ok.mp hl]; rfl⟩)
        nofun (by simpa using hconc)
      rw [lookup_emit]
      simp only [lookup, SocketTable.get, SocketTable.insertBinding, modifySocket,
        SocketTable.modify, IndexMap.get?_modify, IndexMap.get?_insert, if_true, Option.map_some]
      split <;> rfl

theorem acceptSyn_steps {listener : Fd} {loc rem : SocketAddr} {s : TcpSegment}
    (hnone : k.sockets.findConnection loc rem = none) (hin : σ.arrives loc rem s)
    (hsyn : s.flags.syn = true ∧ s.flags.ack = false)
    (ho : ∀ g, k'.Connected loc rem g → σ.opens loc rem g)
    (h : k.acceptSyn listener loc rem s = .ok k') : KSteps σ k k' := by
  rcases acceptSyn_cases h with rfl | ⟨key, hid, hopened⟩
  · exact .refl
  · exact .single (.accept hnone hin hsyn (ho _ hopened.connected) hid hopened)

/-- The first poll of a connection. -/
theorem startConnect_step {st : Socket} {peer : SocketAddr} (hst : k.lookup fd = some st)
    (ht : st.tcb = none) (hty : st.ty = .stream)
    (ho : ∀ loc g, k'.Connected loc peer g → σ.opens loc peer g) (h : k.startConnect fd peer = .ok k') : KStep σ k k' := by
  obtain ⟨src, hsrc, h⟩ := bind_eq_ok.mp h
  obtain ⟨st', hst', h⟩ := bind_eq_ok.mp h
  obtain ⟨sockets, hs, h⟩ := bind_eq_ok.mp h
  unfold SocketTable.insertConnection at hs
  split at hs
  · cases hs
  · rename_i hconc
    cases hs
    cases h
    -- the source is the address the socket is bound to
    have hb : ∃ key, st.bound = some key ∧ src = ⟨key.localAddr, key.localPort⟩ := by
      obtain ⟨st1, hst1, hsrc⟩ := bind_eq_ok.mp hsrc
      cases (expect_eq_ok.mp hst1).symm.trans hst
      obtain ⟨key, hkey, hsrc⟩ := bind_eq_ok.mp hsrc
      refine ⟨key, expect_eq_ok.mp hkey, ?_⟩
      cases hsrc
      rw [ht]
      simp
    refine .connect hst ht (ho src fd (Opened.connected ?opened)) ?opened
    refine Opened.of_lookup
      ({ st with
        tcb := some (Tcb.fresh .synSent peer k.tcpIsn defaultWindow 0)
        peer := some peer })
      rfl rfl rfl rfl (Nat.le_refl _) (fun g => ?_) rfl hb (Or.inl hty)
      (fun l hl => ⟨st, hst, hl⟩) (by simpa using hconc)
    rw [lookup_emit]
    have hst2 : k.sockets.sockets.get? fd = some st := hst
    simp only [lookup, SocketTable.get, modifySocket, SocketTable.modify, IndexMap.get?_modify,
      hst2, Option.map_some]

/-- `tcp::deliver`. -/
theorem tcpDeliver_steps {pkt : Packet} {s : TcpSegment}
    (hin : σ.arrives ⟨pkt.dst, s.dstPort⟩ ⟨pkt.src, s.srcPort⟩ s)
    (ho : ∀ g, k'.Connected ⟨pkt.dst, s.dstPort⟩ ⟨pkt.src, s.srcPort⟩ g →
      σ.opens ⟨pkt.dst, s.dstPort⟩ ⟨pkt.src, s.srcPort⟩ g)
    (h : k.tcpDeliver pkt s = .ok k') : KSteps σ k k' := by
  unfold tcpDeliver at h
  cases hf : k.sockets.findConnection ⟨pkt.dst, s.dstPort⟩ ⟨pkt.src, s.srcPort⟩ with
  | some fd =>
    simp only [hf] at h
    exact handleOnConnection_steps hf hin h
  | none =>
    simp only [hf] at h
    split at h
    · rename_i hsyn
      obtain ⟨o, -, h⟩ := bind_eq_ok.mp h
      cases o with
      | some listener => exact acceptSyn_steps hf hin (by simpa using hsyn) ho h
      | none =>
        cases h
        exact .single (.reject s hf hin)
    · cases h
      split
      · exact .refl
      · exact .single (.reject s hf hin)

theorem udpDeliver_quiet {pkt : Packet} {d : UdpDatagram} (h : k.udpDeliver pkt d = .ok k') :
    Quiet k k' := by
  unfold udpDeliver at h
  have hself : Quiet k k := Quiet.of_lookup rfl rfl rfl rfl rfl fun _ => rfl
  dsimp only at h
  split at h
  · cases h
    exact hself
  · rename_i fd _
    obtain ⟨st, -, h⟩ := bind_eq_ok.mp h
    split at h
    · cases h
      exact hself
    · cases h
      exact Quiet.modifySide k fd (fun _ => ⟨rfl, rfl, rfl⟩) fun _ => ⟨rfl, rfl⟩

/-- **A delivered packet** brings in at most its own segment. -/
theorem deliver_steps {pkt : Packet}
    (hin : ∀ s, pkt.payload = .tcp s → σ.arrives ⟨pkt.dst, s.dstPort⟩ ⟨pkt.src, s.srcPort⟩ s)
    (ho : ∀ s, pkt.payload = .tcp s → ∀ g,
      k'.Connected ⟨pkt.dst, s.dstPort⟩ ⟨pkt.src, s.srcPort⟩ g →
        σ.opens ⟨pkt.dst, s.dstPort⟩ ⟨pkt.src, s.srcPort⟩ g)
    (h : k.deliver pkt = .ok k') : KSteps σ k k' := by
  unfold deliver at h
  cases hp : pkt.payload with
  | udp d =>
    simp only [hp] at h
    exact .single (.quiet (udpDeliver_quiet h))
  | tcp s =>
    simp only [hp] at h
    exact tcpDeliver_steps (hin s hp) (ho s hp) h

/-! ## 4. The sweeps -/

theorem tcb?_eq_some {t : Tcb} : k.tcb? fd = some t ↔ ∃ st, k.lookup fd = some st ∧ st.tcb = some t :=
  Option.bind_eq_some_iff

theorem countRetx_step {action : Tcb.RetxAction} (hq : σ.acts fd .count)
    (h : k.countRetx fd = .ok (k', action)) : KStep σ k k' := by
  obtain ⟨t, ht, h⟩ := bind_eq_ok.mp h
  obtain ⟨st, hst, ht⟩ := tcb?_eq_some.mp (expect_eq_ok.mp ht)
  cases h
  have hstep : KStep σ k ((k.setTcb fd (t.checkRetx k.cfg.retxThreshold k.cfg.retxMax).1).emitAll
      t.peer t.peer []) :=
    KStep.of_act (a := .count) hst ht rfl (fun s hs => by cases hs) (fun _ => hq)
      (fun h => absurd rfl h) trivial
  exact hstep

theorem countAll_steps (hq : ∀ fd, σ.acts fd .count) : ∀ {fds : List Fd} {k k' : Kernel}
    {r : List Fd × List Fd}, countAll k fds = .ok (k', r) → KSteps σ k k' := by
  intro fds
  induction fds with
  | nil =>
    intro k k' r h
    cases h
    exact .refl
  | cons fd fds ih =>
    intro k k' r h
    obtain ⟨⟨k1, action⟩, h1, h⟩ := bind_eq_ok.mp h
    obtain ⟨⟨k2, resend, abort⟩, h2, h⟩ := bind_eq_ok.mp h
    cases h
    exact .head (countRetx_step (hq fd) h1) (ih h2)

theorem emitHandshake_step (hq : σ.acts fd .handshake) (h : k.emitHandshake fd = .ok k') :
    KStep σ k k' := by
  obtain ⟨st, hst, h⟩ := bind_eq_ok.mp h
  obtain ⟨t, ht, h⟩ := bind_eq_ok.mp h
  obtain ⟨loc, hloc, h⟩ := bind_eq_ok.mp h
  obtain ⟨seg, hseg, h⟩ := bind_eq_ok.mp h
  cases h
  replace hst := expect_eq_ok.mp hst
  replace ht := expect_eq_ok.mp ht
  have hstep : KStep σ k ((k.setTcb fd t).emitAll loc t.peer [seg]) :=
    KStep.of_act (a := .handshake) hst ht (by rw [Tcb.act, hseg]; rfl) (fun s hs => by cases hs)
      (fun _ => hq) (fun _ _ => ⟨hloc, rfl⟩) trivial
  rwa [setTcb_self hst ht] at hstep

theorem segmentOne_step (hq : ∀ mss, σ.acts fd (.segment mss))
    (hwants : ∀ t, k.tcb? fd = some t → t.wantsSegment = true) (h : k.segmentOne fd = .ok k') :
    KStep σ k k' ∧ ∀ g, g ≠ fd → k'.tcb? g = k.tcb? g := by
  obtain ⟨st, hst, h⟩ := bind_eq_ok.mp h
  obtain ⟨loc, hloc, h⟩ := bind_eq_ok.mp h
  obtain ⟨t, ht, h⟩ := bind_eq_ok.mp h
  obtain ⟨⟨t', segs⟩, ha, h⟩ := bind_eq_ok.mp h
  cases h
  replace hst := expect_eq_ok.mp hst
  replace ht := expect_eq_ok.mp ht
  constructor
  · exact KStep.of_act (a := .segment (k.mssFor loc.ip)) hst ht ha (fun s hs => by cases hs)
      (fun _ => hq _) (fun _ _ => ⟨hloc, rfl⟩) (hwants t (tcb?_eq_some.mpr ⟨st, hst, ht⟩))
  · intro g hg
    have hl : ((k.setTcb fd t').emitAll loc t.peer segs).lookup g = k.lookup g := by
      rw [emitAll_eq]
      exact (lookup_setTcb k fd g t').trans (if_neg hg)
    rw [tcb?, hl, tcb?]

/-- A loop over sockets whose body is a sequence of steps. -/
theorem foldlM_steps {f : Kernel → Fd → Except Panic Kernel} : ∀ {l : List Fd} {k k' : Kernel},
    (∀ fd ∈ l, ∀ k k', f k fd = .ok k' → KSteps σ k k') → l.foldlM f k = .ok k' →
      KSteps σ k k' := by
  intro l
  induction l with
  | nil =>
    intro k k' _ h
    cases h
    exact .refl
  | cons fd l ih =>
    intro k k' hf h
    rw [List.foldlM_cons] at h
    obtain ⟨k1, h1, h⟩ := bind_eq_ok.mp h
    exact (hf fd List.mem_cons_self k k1 h1).trans
      (ih (fun g hg => hf g (List.mem_cons_of_mem _ hg)) h)

/-- **The retransmission check** counts, repeats handshakes, and gives up what is at the end of its
attempts. -/
theorem checkRetx_steps (hs : ∀ fd a, a.isSweep = true → a ≠ .giveUp → σ.acts fd a)
    (hgive : ∀ fd t, k.tcb? fd = some t → t.awaitsAck = true →
      (t.checkRetx k.cfg.retxThreshold k.cfg.retxMax).2 = .abort → σ.acts fd .giveUp)
    (h : k.checkRetx = .ok k') : KSteps σ k k' := by
  obtain ⟨⟨k1, resend, abort⟩, h1, h⟩ := bind_eq_ok.mp h
  obtain ⟨k2, h2, h⟩ := bind_eq_ok.mp h
  have hnodup := k.nodup_candidates Tcb.awaitsAck
  have habort : ∀ fd ∈ abort, σ.acts fd .giveUp := by
    intro fd hfd
    obtain ⟨t, ht, hact⟩ := countAll_abort hnodup h1 fd hfd
    obtain ⟨st, t', hst, ht', hwaits⟩ := mem_candidates.mp (countAll_abort_mem h1 fd hfd)
    cases ht.symm.trans (tcb?_eq_some.mpr ⟨st, hst, ht'⟩)
    exact hgive fd t ht hwaits hact
  refine (countAll_steps (fun fd => hs fd .count rfl nofun) h1).trans
    ((foldlM_steps (fun fd _ k k' hk => ?_) h2).trans (foldlM_steps (fun fd hfd k k' hk => ?_) h))
  · exact .single (emitHandshake_step (hs fd .handshake rfl nofun) hk)
  · exact abortWith_steps (a := .giveUp) (l := ⟨.v4 0, 0⟩) (r := ⟨.v4 0, 0⟩) (fun _ => rfl)
      (fun s hs => by cases hs) (fun _ => habort fd hfd) (fun _ => trivial) hk

theorem segmentAll_steps (hs : ∀ fd a, a.isSweep = true → a ≠ .giveUp → σ.acts fd a)
    (h : k.segmentAll = .ok k') : KSteps σ k k' := by
  have hfold : ∀ {fds : List Fd} {a b : Kernel}, fds.Nodup →
      (∀ fd ∈ fds, ∀ t, a.tcb? fd = some t → t.wantsSegment = true) →
      fds.foldlM segmentOne a = .ok b → KSteps σ a b := by
    intro fds
    induction fds with
    | nil =>
      intro a b _ _ hab
      cases hab
      exact .refl
    | cons fd fds ih =>
      intro a b hnodup hwants hab
      rw [List.foldlM_cons] at hab
      obtain ⟨c, hc, hab⟩ := bind_eq_ok.mp hab
      obtain ⟨hmem, hnodup⟩ := List.nodup_cons.mp hnodup
      obtain ⟨hstep, hrest⟩ := segmentOne_step (fun mss => hs fd (.segment mss) rfl nofun)
        (hwants fd List.mem_cons_self) hc
      refine .head hstep (ih hnodup (fun g hg t ht => ?_) hab)
      rw [hrest g fun heq => hmem (heq ▸ hg)] at ht
      exact hwants g (List.mem_cons_of_mem fd hg) t ht
  refine hfold (k.nodup_candidates Tcb.wantsSegment) (fun fd hfd t ht => ?_) h
  obtain ⟨st, t', hst, ht', hwants⟩ := mem_candidates.mp hfd
  cases ht.symm.trans (tcb?_eq_some.mpr ⟨st, hst, ht'⟩)
  exact hwants

/-! ## 5. `egress` -/

/-- A step leaves the host's configuration alone. -/
theorem KStep.cfg (h : KStep σ k k') : k'.cfg = k.cfg ∧ k'.addresses = k.addresses := by
  cases h with
  | quiet h => exact ⟨h.cfg, h.addresses⟩
  | act => rw [emitAll_eq]; exact ⟨rfl, rfl⟩
  | connect _ _ _ h => exact ⟨h.cfg, h.addresses⟩
  | accept _ _ _ _ _ h => exact ⟨h.cfg, h.addresses⟩
  | _ => exact ⟨rfl, rfl⟩

theorem KSteps.cfg (h : KSteps σ k k') : k'.cfg = k.cfg ∧ k'.addresses = k.addresses := by
  induction h with
  | refl => exact ⟨rfl, rfl⟩
  | tail _ h ih => exact ⟨h.cfg.1.trans ih.1, h.cfg.2.trans ih.2⟩

/-- What holds of a new control block, and what every act keeps, holds of all control blocks. -/
theorem KStep.each {P : Tcb → Prop}
    (hfresh : ∀ state peer isn wnd rcv, state.handshake = true → P (.fresh state peer isn wnd rcv))
    (hact : ∀ (t t' : Tcb) (loc rem : SocketAddr) (a : TcbAct) (segs : List TcpSegment), P t →
      t.act k.cfg loc rem a = .ok (t', segs) → P t')
    (hk : ∀ fd c, k.conn? fd = some c → P c.tcb) (h : KStep σ k k') :
    ∀ fd c, k'.conn? fd = some c → P c.tcb := by
  intro g c hg
  cases h with
  | quiet h =>
    rw [h.conn] at hg
    exact hk g c hg
  | act hc ha hin hq hloc hclosed hfit =>
    rw [conn?_emitAll, conn?_putTcb hc] at hg
    split at hg
    · cases hg
      exact hact _ _ _ _ _ _ (hk _ _ hc) ha
    · exact hk g c hg
  | connect hst ht ho h =>
    rw [h.conn] at hg
    split at hg
    · cases hg
      exact hfresh _ _ _ _ _ rfl
    · exact hk g c hg
  | accept hnone hin hsyn ho hid h =>
    rw [h.conn] at hg
    split at hg
    · cases hg
      exact hfresh _ _ _ _ _ rfl
    · exact hk g c hg
  | remove hrm =>
    rw [conn?_removeSocket] at hg
    split at hg
    · cases hg
    · exact hk g c hg
  | _ => exact hk g c hg

/-- What every step keeps, a sequence of steps keeps. -/
theorem KSteps.invariant {inv : Kernel → Prop} (hstep : ∀ k k', inv k → KStep σ k k' → inv k')
    (h : KSteps σ k k') (hk : inv k) : inv k' := by
  induction h with
  | refl => exact hk
  | tail _ h ih => exact hstep _ _ ih h

theorem KSteps.isLocal (h : KSteps σ k k') (ip : IpAddr) : k'.isLocal ip = k.isLocal ip := by
  rw [Kernel.isLocal, h.cfg.2, Kernel.isLocal]

/-- The drain of the queue: its local packets are delivered, the others leave in order. -/
theorem route_steps : ∀ {pkts : List Packet} {k k' : Kernel} {out : List Packet},
    (∀ pkt ∈ pkts, k.isLocal pkt.dst = true → ∀ s, pkt.payload = .tcp s →
      σ.arrives ⟨pkt.dst, s.dstPort⟩ ⟨pkt.src, s.srcPort⟩ s
        ∧ ∀ g, σ.opens ⟨pkt.dst, s.dstPort⟩ ⟨pkt.src, s.srcPort⟩ g) →
    route k pkts = .ok (k', out) →
    KSteps σ k k' ∧ out = pkts.filter fun pkt => !k.isLocal pkt.dst := by
  intro pkts
  induction pkts with
  | nil =>
    intro k k' out _ h
    cases h
    exact ⟨.refl, rfl⟩
  | cons pkt pkts ih =>
    intro k k' out hin h
    unfold route at h
    split at h
    · rename_i hloc
      obtain ⟨k1, h1, h⟩ := bind_eq_ok.mp h
      have hs := deliver_steps (σ := σ) (fun s hp => (hin pkt List.mem_cons_self hloc s hp).1)
        (fun s hp g _ => (hin pkt List.mem_cons_self hloc s hp).2 g) h1
      obtain ⟨h2, h3⟩ := ih (fun p hp hl => hin p (List.mem_cons_of_mem _ hp)
        (by rwa [hs.isLocal] at hl)) h
      refine ⟨hs.trans h2, ?_⟩
      rw [h3, List.filter_cons_of_neg (by simp [hloc])]
      exact List.filter_congr fun p _ => by rw [hs.isLocal]
    · rename_i hloc
      obtain ⟨⟨k1, out1⟩, h1, h⟩ := bind_eq_ok.mp h
      cases h
      obtain ⟨h2, h3⟩ := ih (fun p hp => hin p (List.mem_cons_of_mem _ hp)) h1
      exact ⟨h2, by rw [h3, List.filter_cons_of_pos (by simpa using hloc)]⟩

theorem KSteps.esteps (h : KSteps σ k k') (out : List Packet) : ESteps σ (k, out) (k', out) := by
  induction h with
  | refl => exact .refl
  | tail _ h ih => exact ih.tail (.inner h)

/-- Steps take place whatever has left the host before. -/
theorem ESteps.after {out out' : List Packet} (h : ESteps σ (k, out) (k', out'))
    (pre : List Packet) : ESteps σ (k, pre ++ out) (k', pre ++ out') := by
  refine Relation.ReflTransGen.lift (fun x : Kernel × List Packet => (x.1, pre ++ x.2)) ?_ _ _ h
  intro x y hxy
  cases hxy with
  | inner h => exact .inner h
  | drain =>
    simp only [Function.onFun]
    rw [← List.append_assoc]
    exact .drain

/-- **The loop of `egress`.**  `inv` is what is known of the kernel when its queue is taken. -/
theorem egressLoop_steps {inv : Kernel → Prop}
    (hs : ∀ fd a, a.isSweep = true → a ≠ .giveUp → σ.acts fd a)
    (hstep : ∀ k k', inv k → KStep σ k k' → inv k')
    (hdrain : ∀ k, inv k → inv { k with outbound := [] })
    (hin : ∀ k, inv k → ∀ pkt ∈ k.outbound, k.isLocal pkt.dst = true →
      ∀ s, pkt.payload = .tcp s → σ.arrives ⟨pkt.dst, s.dstPort⟩ ⟨pkt.src, s.srcPort⟩ s
        ∧ ∀ g, σ.opens ⟨pkt.dst, s.dstPort⟩ ⟨pkt.src, s.srcPort⟩ g) :
    ∀ {fuel : Nat} {k k' : Kernel} {out : List Packet}, inv k →
      egressLoop fuel k = .ok (k', out) → ESteps σ (k, []) (k', out) := by
  intro fuel
  induction fuel with
  | zero =>
    intro k k' out _ h
    cases h
  | succ fuel ih =>
    intro k k' out hk h
    unfold egressLoop at h
    obtain ⟨k1, h1, h⟩ := bind_eq_ok.mp h
    have hs1 := segmentAll_steps hs h1
    have hk1 := hs1.invariant hstep hk
    split at h
    · cases h
      exact hs1.esteps []
    · obtain ⟨⟨k2, out2⟩, h2, h⟩ := bind_eq_ok.mp h
      obtain ⟨⟨k3, out3⟩, h3, h⟩ := bind_eq_ok.mp h
      cases h
      obtain ⟨hs2, rfl⟩ := route_steps (k := { k1 with outbound := [] })
        (fun pkt hp hl => hin k1 hk1 pkt hp hl) h2
      have hk2 := hs2.invariant hstep (hdrain k1 hk1)
      have h4 := (ih hk2 h3).after (k1.outbound.filter fun pkt => !k1.isLocal pkt.dst)
      rw [List.append_nil] at h4
      refine (hs1.esteps []).trans (.head .drain ?_)
      rw [List.nil_append]
      exact (hs2.esteps _).trans h4

theorem reapClosed_steps (k : Kernel) : KSteps σ k k.reapClosed := by
  have hfold : ∀ {l : List Fd} {k : Kernel}, l.Nodup →
      (∀ fd ∈ l, ∃ st, k.lookup fd = some st ∧ reapable st = true) →
      KSteps σ k (l.foldl removeSocket k) := by
    intro l
    induction l with
    | nil => exact fun _ _ => .refl
    | cons fd l ih =>
      intro k hnodup hl
      obtain ⟨hmem, hnodup⟩ := List.nodup_cons.mp hnodup
      refine .head (.remove (Or.inr (hl fd List.mem_cons_self))) (ih hnodup fun g hg => ?_)
      rw [lookup_removeSocket, if_neg fun heq : g = fd => hmem (heq ▸ hg)]
      exact hl g (List.mem_cons_of_mem fd hg)
  refine hfold (k.sockets.sockets.nodup.sublist (List.filter_sublist.map Prod.fst)) fun fd hfd => ?_
  obtain ⟨⟨g, st⟩, hmem, rfl⟩ := List.mem_map.mp hfd
  obtain ⟨hmem, hreap⟩ := List.mem_filter.mp hmem
  exact ⟨st, IndexMap.mem_entries.mp hmem, hreap⟩

/-- **`egress`** sweeps, delivers what is local, and lets the rest of the queue leave in order. -/
theorem egress_steps {inv : Kernel → Prop}
    (hs : ∀ fd a, a.isSweep = true → a ≠ .giveUp → σ.acts fd a)
    (hgive : ∀ fd t, k.tcb? fd = some t → t.awaitsAck = true →
      (t.checkRetx k.cfg.retxThreshold k.cfg.retxMax).2 = .abort → σ.acts fd .giveUp)
    (hstep : ∀ k k', inv k → KStep σ k k' → inv k')
    (hdrain : ∀ k, inv k → inv { k with outbound := [] })
    (hin : ∀ k, inv k → ∀ pkt ∈ k.outbound, k.isLocal pkt.dst = true →
      ∀ s, pkt.payload = .tcp s → σ.arrives ⟨pkt.dst, s.dstPort⟩ ⟨pkt.src, s.srcPort⟩ s
        ∧ ∀ g, σ.opens ⟨pkt.dst, s.dstPort⟩ ⟨pkt.src, s.srcPort⟩ g)
    {fuel : Nat} {out : List Packet} (hk : inv k) (h : k.egress fuel = .ok (k', out)) :
    ESteps σ (k, []) (k', out) := by
  obtain ⟨k1, h1, h⟩ := bind_eq_ok.mp h
  obtain ⟨⟨k2, out2⟩, h2, h⟩ := bind_eq_ok.mp h
  have hs1 := checkRetx_steps hs hgive h1
  have h3 := egressLoop_steps hs hstep hdrain hin (hs1.invariant hstep hk) h2
  cases h
  exact (hs1.esteps []).trans (h3.trans ((reapClosed_steps k2).esteps out))

/-! ## 6. The calls of the application -/

/-- What the calls rely on: descriptors are handed out once, a connection is bound, and it is one of
a stream socket. -/
structure Sound (k : Kernel) : Prop where
  fresh : ∀ fd st, k.lookup fd = some st → fd < k.sockets.nextId
  bound : ∀ fd c, k.conn? fd = some c → c.bound ≠ none
  /-- What connects or listens is a stream socket. -/
  streams : ∀ fd st, k.lookup fd = some st → (st.tcb.isSome || st.listen.isSome) = true →
    st.ty = .stream

theorem lookup_putTcb {c : Conn} (hc : k.conn? fd = some c) (t : Tcb) (closed : Bool) {g : Fd}
    {st : Socket} (h : (k.putTcb fd t closed).lookup g = some st) :
    ∃ st', k.lookup g = some st' ∧ st'.bound = st.bound ∧ st'.ty = st.ty
      ∧ (st'.tcb.isSome || st'.listen.isSome) = (st.tcb.isSome || st.listen.isSome) := by
  rw [putTcb, lookup_modifySocket] at h
  split at h
  · rename_i hg
    subst hg
    obtain ⟨st', hst', rfl⟩ := Option.map_eq_some_iff.mp h
    obtain ⟨st1, hst1, ht1, -⟩ := conn?_eq_some.mp hc
    cases hst1.symm.trans hst'
    exact ⟨st', hst', rfl, rfl, by rw [ht1]; rfl⟩
  · exact ⟨st, h, rfl, rfl, rfl⟩

/-- A connection that was set up leaves the others as they were, and has a stream socket. -/
theorem Sound.opened (hk : k.Sound) {c : Conn} {loc : SocketAddr} {seg : TcpSegment}
    (h : Opened k k' fd c loc seg) (hlt : fd < k'.sockets.nextId) : k'.Sound := by
  refine ⟨fun g st' hg => ?_, fun g c' hc => ?_, fun g st' hg hs => ?_⟩
  · by_cases hgf : g = fd
    · rw [hgf]
      exact hlt
    · exact Nat.lt_of_lt_of_le (hk.fresh g st' (h.known g st' hgf hg)) h.nextId
  · rw [h.conn] at hc
    split at hc
    · cases hc
      intro e
      have hloc := h.endpoint
      rw [Conn.loc?, e] at hloc
      cases hloc
    · exact hk.bound g c' hc
  · by_cases hgf : g = fd
    · rw [hgf] at hg
      rcases h.streams st' hg with h1 | ⟨g', st, hg', h1, h2⟩
      · exact h1
      · rw [← h1]
        exact hk.streams g' st hg' (by rw [h2, Bool.or_true])
    · exact hk.streams g st' (h.known g st' hgf hg) hs

theorem Sound.step (hk : k.Sound) (h : KStep σ k k') : k'.Sound := by
  cases h with
  | quiet h =>
    refine ⟨fun g st hg => ?_, fun g c hc => hk.bound g c (by rwa [h.conn] at hc),
      fun g st hg hs => ?_⟩
    · rcases h.known g st hg with ⟨st', hst'⟩ | ⟨-, hlt⟩
      · exact Nat.lt_of_lt_of_le (hk.fresh g st' hst') h.nextId
      · exact hlt
    · rcases h.streams g st hg hs with h1 | ⟨st', hst', h1, h2⟩
      · exact h1
      · exact h1 ▸ hk.streams g st' hst' h2
  | act hc ha hin hq hloc hclosed hfit =>
    rename_i fd c t loc rem a segs fdClosed
    refine ⟨fun g st hg => ?_, fun g c' hc' => ?_, fun g st hg hs => ?_⟩
    · rw [emitAll_eq] at hg ⊢
      obtain ⟨st', hst', -⟩ := lookup_putTcb hc t fdClosed hg
      exact hk.fresh g st' hst'
    · rw [conn?_emitAll, conn?_putTcb hc] at hc'
      split at hc'
      · cases hc'
        exact hk.bound fd c hc
      · exact hk.bound g c' hc'
    · rw [emitAll_eq] at hg
      obtain ⟨st', hst', -, h1, h2⟩ := lookup_putTcb hc t fdClosed hg
      exact h1 ▸ hk.streams g st' hst' (h2.trans hs)
  | connect hst ht ho h => exact hk.opened h (Nat.lt_of_lt_of_le (hk.fresh _ _ hst) h.nextId)
  | accept hnone hin hsyn ho hid h => exact hk.opened h (by rw [hid]; exact Nat.lt_succ_self _)
  | remove =>
    rename_i fd hrm
    refine ⟨fun g st hg => ?_, fun g c hc => ?_, fun g st hg hs => ?_⟩
    · rw [lookup_removeSocket] at hg
      split at hg
      · cases hg
      · exact hk.fresh g st hg
    · rw [conn?_removeSocket] at hc
      split at hc
      · cases hc
      · exact hk.bound g c hc
    · rw [lookup_removeSocket] at hg
      split at hg
      · cases hg
      · exact hk.streams g st hg hs
  | _ => exact ⟨hk.fresh, hk.bound, hk.streams⟩

theorem Quiet.refl (k : Kernel) : Quiet k k := Quiet.of_lookup rfl rfl rfl rfl rfl fun _ => rfl

theorem isLocal_of_autoBindAddress {dst a : IpAddr} (h : k.autoBindAddress dst = .ok a) :
    k.isLocal a = true := by
  unfold autoBindAddress at h
  split at h
  · cases h
    cases dst <;> rfl
  · split at h
    · rename_i hf
      cases h
      have := List.mem_of_find?_eq_some hf
      simp [isLocal, this]
    · cases h

/-- The ports a table has handed out are no business of its connections. -/
theorem allocatePort_quiet {domain : Domain} {ty : SockType} {sockets : SocketTable}
    {port : Option UInt16} (h : k.sockets.allocatePort domain ty = .ok (sockets, port)) :
    Quiet k { k with sockets := sockets } := by
  obtain ⟨⟨ports, p⟩, -, h⟩ := bind_eq_ok.mp h
  cases h
  exact Quiet.of_lookup rfl rfl rfl rfl rfl fun _ => rfl

/-- Binding a socket that has no connection. -/
theorem autoBind_steps {domain : Domain} {ty : SockType} {dst : IpAddr} {st : Socket}
    {r : Except NetError BindKey} (hst : k.lookup fd = some st) (ht : st.tcb = none)
    (h : k.autoBind fd domain ty dst = .ok (k', r)) :
    KSteps σ k k' ∧ ∃ st', k'.lookup fd = some st' ∧ st'.tcb = none ∧ st'.ty = st.ty := by
  unfold autoBind at h
  cases ha : k.autoBindAddress dst with
  | error e =>
    simp only [ha] at h
    cases h
    exact ⟨.refl, st, hst, ht, rfl⟩
  | ok localIp =>
    simp only [ha] at h
    obtain ⟨⟨sockets, port⟩, hp, h⟩ := bind_eq_ok.mp h
    have hq := allocatePort_quiet hp
    have hl : ({ k with sockets := sockets } : Kernel).lookup fd = some st := by
      obtain ⟨⟨ports, p⟩, -, hp⟩ := bind_eq_ok.mp hp
      cases hp
      exact hst
    cases port with
    | none =>
      cases h
      exact ⟨.single (.quiet hq), st, hl, ht, rfl⟩
    | some port =>
      obtain ⟨st', hst', h⟩ := bind_eq_ok.mp h
      cases h
      have hq2 := Quiet.insertBinding { k with sockets := sockets } ⟨domain, ty, localIp, port⟩ fd
      refine ⟨.tail (.tail (.single (.quiet hq)) (.quiet hq2)) (.quiet ?_), ?_⟩
      · refine Quiet.modifySocket _ fd (fun st1 hst1 => ?_) (fun st1 key hst1 hkey => ?_)
          (fun _ _ => ⟨rfl, Or.inl⟩) (queued_of_listen_eq fun _ => rfl)
        · cases (show some st = some st1 from hl.symm.trans hst1)
          exact ⟨rfl, fun hne => absurd ht hne⟩
        · cases hkey
          exact Or.inr (Or.inr (isLocal_of_autoBindAddress ha))
      · refine ⟨{ st with bound := some ⟨domain, ty, localIp, port⟩ }, ?_, ht, rfl⟩
        rw [lookup_modifySocket, if_pos rfl]
        exact congrArg (Option.map _) hl

/-- A wider scope allows the same steps. -/
theorem KStep.mono {τ : Scope} (h : KStep σ k k')
    (h1 : ∀ loc rem s, σ.arrives loc rem s → τ.arrives loc rem s)
    (h2 : ∀ fd a, σ.acts fd a → τ.acts fd a)
    (h3 : ∀ loc rem fd, σ.opens loc rem fd → τ.opens loc rem fd)
    (h4 : ∀ fd, σ.removes fd → τ.removes fd) : KStep τ k k' := by
  cases h with
  | quiet h => exact .quiet h
  | act hc ha hin hq hloc hclosed hfit =>
    exact .act hc ha (fun s hs => ⟨(hin s hs).1, h1 _ _ _ (hin s hs).2⟩) (fun hs => h2 _ _ (hq hs))
      hloc hclosed hfit
  | connect hst ht ho h => exact .connect hst ht (h3 _ _ _ ho) h
  | accept hnone hin hsyn ho hid h => exact .accept hnone (h1 _ _ _ hin) hsyn (h3 _ _ _ ho) hid h
  | reject s hnone hin => exact .reject s hnone (h1 _ _ _ hin)
  | reset hc hloc hrm => exact .reset hc hloc (h4 _ hrm)
  | remove hrm => exact .remove (hrm.imp (h4 _) id)
  | datagram src dst d => exact .datagram src dst d

theorem Sound.steps (hk : k.Sound) (h : KSteps σ k k') : k'.Sound :=
  h.invariant (fun _ _ hk h => hk.step h) hk

/-- The sockets `close` can remove: the one it is called on, and the children of a listener that
nobody accepted. -/
def dropped (k : Kernel) (fd : Fd) : List Fd :=
  match (k.lookup fd).bind (·.listen) with
  | some l => fd :: l.ready ++ match (k.lookup fd).bind (·.bound) with
    | some key => k.handshakingOn fd l.ready ⟨key.localAddr, key.localPort⟩
    | none => []
  | none => [fd]

/-- The acts a call makes, the connections it sets up, which are there when it returns, and the
sockets it removes. -/
def callScope (k k' : Kernel) : Syscall → Scope
  | .send fd buf => only fun g a => g = fd ∧ a = .send buf
  | .recv fd len => only fun g a => g = fd ∧ a = .recv [len]
  | .tryRecvVectored fd lens => only fun g a => g = fd ∧ a = .recv lens
  | .shutdown fd => only fun g a => g = fd ∧ a = .shutdown
  | .close fd => { only fun g a => g = fd ∧ a = .linger with removes := (· ∈ k.dropped fd) }
  | .connect _ _ => { only fun _ _ => False with opens := k'.Connected }
  | _ => only fun _ _ => False
where
  only (acts : Fd → TcbAct → Prop) : Scope :=
    ⟨fun _ _ _ => False, acts, fun _ _ _ => False, fun _ => False⟩

theorem bindAt_steps (hk : k.Sound) {key : BindKey} {r : Except NetError Fd}
    (hkey : key.localAddr.isUnspecified = true ∨ k.isLocal key.localAddr = true)
    (h : k.bindAt key = (k', r)) : KSteps σ k k' := by
  unfold bindAt at h
  dsimp only at h
  split at h
  · cases h
    exact .refl
  · cases h
    have hfresh : k.lookup k.sockets.nextId = none := by
      cases hl : k.lookup k.sockets.nextId with
      | none => rfl
      | some st => exact absurd (hk.fresh _ st hl) (Nat.lt_irrefl _)
    have hl : (k.openSocket key.domain key.ty).1.lookup k.sockets.nextId
        = some (Socket.new key.domain key.ty) := by
      simp [openSocket, lookup, SocketTable.insert, SocketTable.get]
    refine .tail (.tail (.single (.quiet (Quiet.openSocket hfresh key.domain key.ty)))
      (.quiet (Quiet.insertBinding _ key k.sockets.nextId))) (.quiet ?_)
    refine Quiet.modifySocket _ _ (fun st hst => ?_) (fun st key' hst hb => ?_)
      (fun _ _ => ⟨rfl, Or.inl⟩) (queued_of_listen_eq fun _ => rfl)
    · cases hl.symm.trans hst
      exact ⟨rfl, fun hne => absurd rfl hne⟩
    · cases hb
      exact Or.inr hkey

theorem bind_steps (hk : k.Sound) {addr : SocketAddr} {ty : SockType} {r : Except NetError Fd}
    (h : k.bind addr ty = .ok (k', r)) : KSteps σ k k' := by
  unfold Kernel.bind at h
  dsimp only at h
  split at h
  · cases h
    exact .refl
  · rename_i hloc
    have hkey : addr.ip.isUnspecified = true ∨ k.isLocal addr.ip = true := by
      revert hloc
      cases addr.ip.isUnspecified <;> cases k.isLocal addr.ip <;> simp
    split at h
    · obtain ⟨⟨sockets, port⟩, hp, h⟩ := bind_eq_ok.mp h
      have hq := allocatePort_quiet hp
      cases port with
      | none =>
        cases h
        exact .single (.quiet hq)
      | some port =>
        have hk1 := hk.step (.quiet hq : KStep σ k _)
        refine .head (.quiet hq) (bindAt_steps hk1 ?_ (Except.ok.inj h))
        exact hkey
    · exact bindAt_steps hk (by exact hkey) (Except.ok.inj h)

/-- Binding a socket that needs it: one that is not bound has no connection. -/
theorem ensureBound_steps (hk : k.Sound) {ty : SockType} {dst : IpAddr} {st : Socket}
    {r : Except NetError BindKey} (hst : k.lookup fd = some st)
    (h : k.ensureBound fd st ty dst = .ok (k', r)) :
    KSteps σ k k' ∧ ∃ st', k'.lookup fd = some st' ∧ st'.tcb = st.tcb ∧ st'.ty = st.ty := by
  unfold ensureBound at h
  cases hb : st.bound with
  | some key =>
    simp only [hb] at h
    cases h
    exact ⟨.refl, st, hst, rfl, rfl⟩
  | none =>
    simp only [hb] at h
    have ht : st.tcb = none := by
      cases ht : st.tcb with
      | none => rfl
      | some t => exact absurd hb (hk.bound fd _ (conn?_of_lookup hst ht))
    rw [ht]
    exact autoBind_steps hst ht h

/-- The first poll and the later ones. -/
theorem tcpPollConnect_steps (hk : k.Sound) {peer : SocketAddr} {r : Poll (Except NetError Unit)}
    {st : Socket} (hst : k.lookup fd = some st) (hty : st.ty = .stream)
    (ho : ∀ loc g, k'.Connected loc peer g → σ.opens loc peer g)
    (h : k.tcpPollConnect fd peer = .ok (k', r)) : KSteps σ k k' := by
  obtain ⟨st1, hst1, h⟩ := bind_eq_ok.mp h
  cases (expect_eq_ok.mp hst1).symm.trans hst
  cases ht : st.tcb with
  | some t =>
    simp only [ht] at h
    cases h
    exact .refl
  | none =>
    simp only [ht] at h
    obtain ⟨⟨k1, bound⟩, h1, h⟩ := bind_eq_ok.mp h
    obtain ⟨hs1, st', hst', ht', hty'⟩ := ensureBound_steps (σ := σ) hk hst h1
    dsimp only at h
    cases bound with
    | error e =>
      cases h
      exact hs1
    | ok _ =>
      obtain ⟨k2, h2, h⟩ := bind_eq_ok.mp h
      cases h
      exact hs1.tail (startConnect_step hst' (ht'.trans ht) (hty'.trans hty) ho h2)

theorem udpSendTo_steps (hk : k.Sound) {buf : List UInt8} {dst : SocketAddr}
    {r : Poll (Except NetError Nat)} (h : k.udpSendTo fd buf dst = .ok (k', r)) :
    KSteps σ k k' := by
  obtain ⟨st, hst, h⟩ := bind_eq_ok.mp h
  replace hst := expect_eq_ok.mp hst
  split at h
  · cases h
    exact .refl
  · split at h
    · cases h
      exact .refl
    · obtain ⟨⟨k1, bound⟩, h1, h⟩ := bind_eq_ok.mp h
      obtain ⟨hs1, -⟩ := ensureBound_steps hk hst h1
      dsimp only at h
      cases bound with
      | error e =>
        cases h
        exact hs1
      | ok key =>
        cases h
        exact hs1.tail (.datagram _ _ _)

theorem udpRecvFrom_quiet {st : Socket} {len : Nat} {r : Poll (SocketAddr × List UInt8)}
    (h : k.udpRecvFrom fd st len = (k', r)) : Quiet k k' := by
  unfold udpRecvFrom at h
  split at h
  · cases h
    exact Quiet.refl k
  · cases h
    exact Quiet.modifySide k fd (fun _ => ⟨rfl, rfl, rfl⟩) fun _ => ⟨rfl, rfl⟩

/-- An act that sends nothing. -/
theorem KStep.of_silent_act {st : Socket} {t t' : Tcb} {a : TcbAct} (hst : k.lookup fd = some st)
    (ht : st.tcb = some t) (ha : t.act k.cfg t.peer t.peer a = .ok (t', []))
    (hin : ∀ s, a ≠ .inbound s) (hq : σ.acts fd a) (hfit : a.Fits t) :
    KStep σ k (k.setTcb fd t') :=
  KStep.of_act hst ht ha (fun s hs => absurd hs (hin s)) (fun _ => hq) (fun h => absurd rfl h) hfit

theorem tcpPollSend_steps {buf : List UInt8} {r : Poll (Except NetError Nat)}
    (hq : σ.acts fd (.send buf)) (h : k.tcpPollSend fd buf = (k', r)) : KSteps σ k k' := by
  unfold tcpPollSend at h
  cases hst : k.lookup fd with
  | none =>
    simp only [hst] at h
    cases h
    exact .refl
  | some st =>
    simp only [hst] at h
    cases ht : st.tcb with
    | none =>
      simp only [ht] at h
      cases h
      exact .refl
    | some t =>
      simp only [ht] at h
      cases h
      exact .single (.of_silent_act hst ht rfl (fun s hs => by cases hs) hq trivial)

theorem tcpPollShutdownWrite_steps {r : Poll (Except NetError Unit)}
    (hq : σ.acts fd .shutdown) (h : k.tcpPollShutdownWrite fd = (k', r)) : KSteps σ k k' := by
  unfold tcpPollShutdownWrite at h
  cases hst : k.lookup fd with
  | none =>
    simp only [hst] at h
    cases h
    exact .refl
  | some st =>
    simp only [hst] at h
    cases ht : st.tcb with
    | none =>
      simp only [ht] at h
      cases h
      exact .refl
    | some t =>
      simp only [ht] at h
      cases h
      exact .single (.of_silent_act hst ht rfl (fun s hs => by cases hs) hq trivial)

theorem tcpPollRecvVectored_steps {lens : List Nat} {r : Poll (Except NetError (List UInt8))}
    (hq : σ.acts fd (.recv lens)) (h : k.tcpPollRecvVectored fd lens = .ok (k', r)) :
    KSteps σ k k' := by
  unfold tcpPollRecvVectored at h
  cases hst : k.lookup fd with
  | none =>
    simp only [hst] at h
    cases h
    exact .refl
  | some st =>
    simp only [hst] at h
    cases ht : st.tcb with
    | none =>
      simp only [ht] at h
      cases h
      exact .refl
    | some t =>
      simp only [ht] at h
      split at h
      · cases h
        exact .refl
      · obtain ⟨loc, hloc, h⟩ := bind_eq_ok.mp h
        cases h
        have hpeer : (t.pollRecvVectored k.cfg.recvBufCap lens).1.peer = t.peer := by
          unfold Tcb.pollRecvVectored
          dsimp only
          split
          · rfl
          · split
            · split
              · rfl
              · split <;> rfl
            · rfl
        have hstep : KStep σ k ((k.setTcb fd (t.pollRecvVectored k.cfg.recvBufCap lens).1).emitAll
            loc t.peer (if (t.pollRecvVectored k.cfg.recvBufCap lens).2.2
              then [(t.pollRecvVectored k.cfg.recvBufCap lens).1.ackSegment k.cfg.recvBufCap loc
                t.peer] else [])) :=
          KStep.of_act (a := .recv lens) hst ht rfl (fun s hs => by cases hs) (fun _ => hq)
            (fun _ _ => ⟨hloc, rfl⟩) trivial
        refine .single ?_
        convert hstep using 1
        rw [hpeer]
        split <;> rfl

theorem loc?_of_boundEndpoint {st : Socket} {t : Tcb} {loc : SocketAddr}
    (h : boundEndpoint st = .ok loc) : (⟨st.bound, t, st.fdClosed⟩ : Conn).loc? = some loc := by
  obtain ⟨key, hkey, h⟩ := bind_eq_ok.mp h
  cases h
  rw [Conn.loc?, expect_eq_ok.mp hkey]
  rfl

theorem resetChild_steps (hrm : σ.removes fd) (h : k.resetChild fd = .ok k') : KSteps σ k k' := by
  unfold resetChild at h
  cases hst : k.lookup fd with
  | none =>
    simp only [hst] at h
    cases h
    exact .refl
  | some st =>
    simp only [hst] at h
    cases ht : st.tcb with
    | none =>
      simp only [ht] at h
      cases h
      exact .single (.remove (Or.inl hrm))
    | some t =>
      simp only [ht] at h
      obtain ⟨loc, hloc, h⟩ := bind_eq_ok.mp h
      cases h
      exact .tail (.single (.reset (conn?_of_lookup hst ht) (loc?_of_boundEndpoint hloc) hrm))
        (.remove (Or.inl hrm))

theorem mem_dropped_self (k : Kernel) (fd : Fd) : fd ∈ k.dropped fd := by
  unfold dropped
  split
  · exact List.mem_append_left _ List.mem_cons_self
  · exact List.mem_cons_self

/-- `close`: a listener resets its children, a connection with unread bytes is reset, any other
connection lingers. -/
theorem close_steps (hrm : ∀ g ∈ k.dropped fd, σ.removes g) (hq : σ.acts fd .linger)
    (h : k.close fd = .ok k') : KSteps σ k k' := by
  have hself := hrm fd (mem_dropped_self k fd)
  obtain ⟨⟨k1, reap⟩, h1, h⟩ := bind_eq_ok.mp h
  suffices hs : KSteps σ k k1 by
    cases h
    split
    · exact hs.tail (.remove (Or.inl hself))
    · exact hs
  clear h
  unfold onClose at h1
  cases hst : k.lookup fd with
  | none =>
    simp only [hst] at h1
    cases h1
    exact .refl
  | some st =>
    simp only [hst] at h1
    split at h1
    · rename_i l _ _ hl
      obtain ⟨loc, hloc, h1⟩ := bind_eq_ok.mp h1
      obtain ⟨k2, h2, h1⟩ := bind_eq_ok.mp h1
      cases h1
      obtain ⟨key, hkey, hloc⟩ := bind_eq_ok.mp hloc
      cases hloc
      refine foldlM_steps (fun g hg k k' hk => resetChild_steps (hrm g ?_) hk) h2
      simp only [dropped, hst, Option.bind_some, hl, expect_eq_ok.mp hkey]
      exact List.mem_cons_of_mem fd hg
    · rename_i t _ ht
      split at h1
      · rename_i hactive
        split at h1
        · obtain ⟨loc, hloc, h1⟩ := bind_eq_ok.mp h1
          cases h1
          exact .single (.reset (conn?_of_lookup hst ht) (loc?_of_boundEndpoint hloc) hself)
        · rename_i hempty
          cases h1
          have hact : t.act k.cfg t.peer t.peer .linger
              = .ok (if t.wrClosed then t else t.shutWrite, []) := rfl
          exact .single (.act (conn?_of_lookup hst ht) hact (fun s hs => by cases hs)
            (fun _ => hq) (fun h => absurd rfl h) (Or.inr rfl) ⟨hactive, by simpa using hempty⟩)
      · cases h1
        exact .refl
    · cases h1
      exact .refl

theorem listen_quiet {backlog : Nat} {r : Except NetError Unit}
    (h : k.listen fd backlog = .ok (k', r)) : Quiet k k' := by
  unfold Kernel.listen at h
  cases hst : k.lookup fd with
  | none =>
    simp only [hst] at h
    cases h
    exact Quiet.refl k
  | some st =>
    simp only [hst] at h
    split at h
    · cases h
    · rename_i hty
      split at h
      · cases h
      · cases h
        refine Quiet.modifySocket k fd (fun _ _ => ⟨rfl, fun _ => ⟨rfl, rfl⟩⟩)
          (fun _ _ _ => Or.inl) (fun st' hst' => ⟨rfl, fun _ => Or.inr ?_⟩)
          fun st' l _ hl c hc => ?_
        · cases hst.symm.trans hst'
          exact not_not.mp hty
        · cases hl
          cases hc

theorem pollAccept_quiet {r : Poll (Except NetError (Fd × SocketAddr))}
    (h : k.pollAccept fd = .ok (k', r)) : Quiet k k' := by
  unfold pollAccept at h
  cases hst : k.lookup fd with
  | none =>
    simp only [hst] at h
    cases h
    exact Quiet.refl k
  | some st =>
    simp only [hst] at h
    obtain ⟨listen, hl, h⟩ := bind_eq_ok.mp h
    split at h
    · cases h
      exact Quiet.refl k
    · rename_i child rest hq
      obtain ⟨c, -, h⟩ := bind_eq_ok.mp h
      obtain ⟨t, -, h⟩ := bind_eq_ok.mp h
      cases h
      refine Quiet.modifySocket k fd (fun _ _ => ⟨rfl, fun _ => ⟨rfl, rfl⟩⟩)
        (fun _ _ _ => Or.inl) (fun st' hst' => ⟨rfl, fun _ => Or.inl ?_⟩) fun st' l hst' hl' c hc => ?_
      · cases hst.symm.trans hst'
        rw [expect_eq_ok.mp hl]
        rfl
      · cases hl'
        refine Or.inl (SocketTable.mem_ready.mpr ⟨st, listen, hst, expect_eq_ok.mp hl, ?_⟩)
        rw [hq]
        exact List.mem_cons_of_mem child hc

theorem pollConnect_steps (hk : k.Sound) {peer : SocketAddr} {r : Poll (Except NetError Unit)}
    (ho : ∀ loc g, k'.Connected loc peer g → σ.opens loc peer g) (h : k.pollConnect fd peer = .ok (k', r)) : KSteps σ k k' := by
  unfold pollConnect at h
  cases hst : k.lookup fd with
  | none =>
    simp only [hst] at h
    cases h
    exact .refl
  | some st =>
    simp only [hst] at h
    split at h
    · cases h
      exact .refl
    · split at h
      · obtain ⟨⟨k1, bound⟩, h1, h⟩ := bind_eq_ok.mp h
        obtain ⟨hs1, -⟩ := ensureBound_steps hk hst h1
        dsimp only at h
        cases bound with
        | error e =>
          cases h
          exact hs1
        | ok key =>
          cases h
          exact hs1.tail (.quiet (Quiet.modifySide k1 fd (fun _ => ⟨rfl, rfl, rfl⟩)
            fun _ => ⟨rfl, rfl⟩))
      · rename_i hty
        exact tcpPollConnect_steps hk hst hty ho h
      · cases h

theorem setOption_quiet {opt : SocketOption} {r : Except NetError Unit}
    (h : k.setOption fd opt = (k', r)) : Quiet k k' := by
  unfold setOption at h
  split at h
  · cases h
    exact Quiet.refl k
  · cases h
    exact Quiet.modifySide k fd (fun _ => by cases opt <;> exact ⟨rfl, rfl, rfl⟩)
      fun _ => by cases opt <;> exact ⟨rfl, rfl⟩

/-- **A call of the application** is a sequence of steps, within its scope. -/
theorem syscall_steps (hk : k.Sound) {c : Syscall} {r : Reply}
    (h : k.syscall c = .ok (k', r)) : KSteps (callScope k k' c) k k' := by
  cases c with
  | openSocket domain ty =>
    cases h
    refine .single (.quiet (Quiet.openSocket ?_ domain ty))
    cases hl : k.lookup k.sockets.nextId with
    | none => rfl
    | some st => exact absurd (hk.fresh _ st hl) (Nat.lt_irrefl _)
  | bind addr ty =>
    obtain ⟨⟨k1, r1⟩, h1, h⟩ := bind_eq_ok.mp h
    cases h
    exact bind_steps hk h1
  | listen fd backlog =>
    obtain ⟨⟨k1, r1⟩, h1, h⟩ := bind_eq_ok.mp h
    cases h
    exact .single (.quiet (listen_quiet h1))
  | connect fd peer =>
    obtain ⟨⟨k1, r1⟩, h1, h⟩ := bind_eq_ok.mp h
    cases h
    exact pollConnect_steps hk (fun _ _ => id) h1
  | accept fd =>
    obtain ⟨⟨k1, r1⟩, h1, h⟩ := bind_eq_ok.mp h
    cases h
    exact .single (.quiet (pollAccept_quiet h1))
  | send fd buf =>
    obtain ⟨⟨k1, r1⟩, h1, h⟩ := bind_eq_ok.mp h
    cases h
    unfold pollSend at h1
    split at h1
    · cases h1
      exact .refl
    · split at h1
      · split at h1
        · cases h1
          exact .refl
        · exact udpSendTo_steps hk h1
      · exact tcpPollSend_steps ⟨rfl, rfl⟩ (Except.ok.inj h1)
      · cases h1
  | sendTo fd buf dst =>
    obtain ⟨⟨k1, r1⟩, h1, h⟩ := bind_eq_ok.mp h
    cases h
    unfold pollSendTo at h1
    split at h1
    · cases h1
      exact .refl
    · split at h1
      · cases h1
      · split at h1
        · cases h1
          exact .refl
        · exact udpSendTo_steps hk h1
  | recv fd len =>
    obtain ⟨⟨k1, r1⟩, h1, h⟩ := bind_eq_ok.mp h
    cases h
    unfold pollRecv at h1
    split at h1
    · cases h1
      exact .refl
    · split at h1
      · split at h1 <;> rename_i hr <;> cases h1 <;> exact .single (.quiet (udpRecvFrom_quiet hr))
      · exact tcpPollRecvVectored_steps ⟨rfl, rfl⟩ h1
      · cases h1
  | recvFrom fd len =>
    obtain ⟨⟨k1, r1⟩, h1, h⟩ := bind_eq_ok.mp h
    cases h
    unfold pollRecvFrom at h1
    split at h1
    · cases h1
      exact .refl
    · split at h1
      · cases h1
      · split at h1 <;> rename_i hr <;> cases h1 <;> exact .single (.quiet (udpRecvFrom_quiet hr))
  | tryRecvVectored fd lens =>
    obtain ⟨⟨k1, r1⟩, h1, h⟩ := bind_eq_ok.mp h
    cases h
    unfold tryRecvVectored at h1
    split at h1
    · cases h1
      exact .refl
    · split at h1
      · cases h1
        exact .refl
      · obtain ⟨⟨k2, r2⟩, h2, h1⟩ := bind_eq_ok.mp h1
        have hs := tcpPollRecvVectored_steps (σ := callScope k k2 (.tryRecvVectored fd lens))
          ⟨rfl, rfl⟩ h2
        cases r2 <;> cases h1 <;> exact hs
  | peek fd len =>
    obtain ⟨r1, -, h⟩ := bind_eq_ok.mp h
    cases h
    exact .refl
  | peekFrom fd len =>
    obtain ⟨r1, -, h⟩ := bind_eq_ok.mp h
    cases h
    exact .refl
  | shutdown fd =>
    obtain ⟨⟨k1, r1⟩, h1, h⟩ := bind_eq_ok.mp h
    cases h
    unfold pollShutdownWrite at h1
    split at h1
    · cases h1
      exact .refl
    · split at h1
      · exact tcpPollShutdownWrite_steps ⟨rfl, rfl⟩ (Except.ok.inj h1)
      · cases h1
  | close fd =>
    obtain ⟨k1, h1, h⟩ := bind_eq_ok.mp h
    cases h
    exact close_steps (fun _ hg => hg) ⟨rfl, rfl⟩ h1
  | setOption fd opt =>
    cases h
    exact .single (.quiet (setOption_quiet rfl))

/-! ## 7. Runs of one kernel -/

/-- A host's kernel before anything has happened. -/
def host (cfg : KernelConfig) (addrs : List IpAddr) : Kernel :=
  addrs.foldl addAddress (withConfig cfg)

/-- The kernel after a sequence of calls, packets and turns of `egress`, if all of them return. -/
def run (k : Kernel) (ops : List KernelOp) : Except Panic Kernel :=
  ops.foldlM (fun k op => (k.step op).map Prod.fst) k

theorem host_eq (cfg : KernelConfig) (addrs : List IpAddr) :
    ∃ as, host cfg addrs = { withConfig cfg with addresses := as } := by
  suffices h : ∀ as, ∃ as', addrs.foldl addAddress { withConfig cfg with addresses := as }
      = { withConfig cfg with addresses := as' } from h []
  induction addrs with
  | nil => exact fun as => ⟨as, rfl⟩
  | cons a addrs ih =>
    intro as
    rw [List.foldl_cons, addAddress]
    split
    · exact ih as
    · exact ih (as ++ [a])

theorem Sound.host (cfg : KernelConfig) (addrs : List IpAddr) : (host cfg addrs).Sound := by
  obtain ⟨as, has⟩ := host_eq cfg addrs
  rw [has]
  refine ⟨fun fd st h => ?_, fun fd c h => ?_, fun fd st h => ?_⟩
  · cases h
  · cases h
  · cases h

theorem KSteps.any (h : KSteps σ k k') : KSteps .any k k' := by
  induction h with
  | refl => exact .refl
  | tail _ h ih =>
    exact ih.tail (h.mono (fun _ _ _ _ => trivial) (fun _ _ _ => trivial) (fun _ _ _ _ => trivial)
      (fun _ _ => trivial))

/-- What every step and the drain of the queue keep, `egress` keeps. -/
theorem ESteps.invariant {inv : Kernel → Prop} (hstep : ∀ k k', inv k → KStep σ k k' → inv k')
    (hdrain : ∀ k, inv k → inv { k with outbound := [] }) {out out' : List Packet}
    (h : ESteps σ (k, out) (k', out')) (hk : inv k) : inv k' := by
  suffices hall : ∀ x y : Kernel × List Packet, ESteps σ x y → inv x.1 → inv y.1 from
    hall _ _ h hk
  intro x y hxy hx
  induction hxy with
  | refl => exact hx
  | tail _ h ih =>
    cases h with
    | inner h => exact hstep _ _ ih h
    | drain => exact hdrain _ ih

section
variable {inv : Kernel → Prop} (hstep : ∀ k k', inv k → KStep .any k k' → inv k')
  (hdrain : ∀ k, inv k → inv { k with outbound := [] })
include hstep hdrain

/-- **Invariant rule for one kernel.**  What every step keeps, a call, a packet and a turn of
`egress` keep. -/
theorem step_invariant {op : KernelOp} {r : Reply} {out : List Packet} (hs : k.Sound) (hk : inv k)
    (h : k.step op = .ok (k', r, out)) : k'.Sound ∧ inv k' := by
  have hboth : ∀ k k' : Kernel, k.Sound ∧ inv k → KStep .any k k' → k'.Sound ∧ inv k' :=
    fun k k' hk h => ⟨hk.1.step h, hstep k k' hk.2 h⟩
  have hboth' : ∀ k : Kernel, k.Sound ∧ inv k → ({ k with outbound := [] } : Kernel).Sound
      ∧ inv { k with outbound := [] } :=
    fun k hk => ⟨⟨hk.1.fresh, hk.1.bound, hk.1.streams⟩, hdrain k hk.2⟩
  cases op with
  | call c =>
    obtain ⟨⟨k1, r1⟩, h1, h⟩ := bind_eq_ok.mp h
    cases h
    exact (syscall_steps hs h1).any.invariant hboth ⟨hs, hk⟩
  | deliver pkt =>
    obtain ⟨k1, h1, h⟩ := bind_eq_ok.mp h
    cases h
    exact (deliver_steps (σ := .any) (fun _ _ => trivial) (fun _ _ _ _ => trivial) h1).invariant
      hboth ⟨hs, hk⟩
  | egress fuel =>
    obtain ⟨⟨k1, out1⟩, h1, h⟩ := bind_eq_ok.mp h
    have hes : ESteps .any (k, []) (k1, out1) :=
      egress_steps (fun _ _ _ _ => trivial) (fun _ _ _ _ _ => trivial)
        (fun _ _ (_ : True) _ => trivial)
        (fun _ _ => trivial) (fun _ _ _ _ _ _ _ => ⟨trivial, fun _ => trivial⟩) trivial h1
    cases h
    exact hes.invariant hboth hboth' ⟨hs, hk⟩

theorem run_invariant {ops : List KernelOp} : ∀ {k : Kernel}, k.Sound → inv k →
    k.run ops = .ok k' → k'.Sound ∧ inv k' := by
  induction ops with
  | nil =>
    intro k hs hk h
    cases h
    exact ⟨hs, hk⟩
  | cons op ops ih =>
    intro k hs hk h
    rw [run, List.foldlM_cons] at h
    obtain ⟨k1, h1, h⟩ := bind_eq_ok.mp h
    cases hop : k.step op with
    | error e =>
      rw [hop] at h1
      cases h1
    | ok r =>
      rw [hop] at h1
      cases h1
      obtain ⟨hs1, hk1⟩ := step_invariant hstep hdrain hs hk (show k.step op = .ok (r.1, r.2) from hop)
      exact ih hs1 hk1 h

end

end Kernel

end Turmoil.Net
