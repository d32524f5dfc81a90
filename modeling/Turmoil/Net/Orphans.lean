/-
# Sockets that nobody holds

A stream socket stays in the table for a reason: the application holds it, it is a child in its
handshake, it waits to be accepted, or it is closed and TCP is not done with it.  `reap_closed`
takes care of the last kind only.  A child that is aborted in its handshake, by a RST or because
nobody answered, is none of the four: it is closed, but no application ever closed it.  It stays in
the table for good, and its entry in the connection index swallows every later SYN of its peer.

Short of that no socket is lost.  `Keeps` is what a step does to the reasons: a queued child stays
queued, a child in its handshake stays there or is queued, and every listener stays.
-/
import Turmoil.Net.Consistent

namespace Turmoil.Net

/-! ## 1. Reasons to be in the table -/

/-- A child in its handshake. -/
def Socket.Received (st : Socket) : Prop := ∃ t, st.tcb = some t ∧ t.state = .synReceived

/-- Has TCP nothing left to do for this control block? -/
def Tcb.terminal (t : Tcb) : Bool := t.state == .closed || t.reset

/-- **No orphans**: every stream socket is held by the application, in its handshake, waiting to be
accepted, or closed with TCP not done. -/
def Host.NoOrphans (h : Host) : Prop :=
  ∀ fd st, h.kernel.lookup fd = some st → st.ty = .stream →
    h.handles.get? fd ≠ none ∨ st.Received ∨ (∃ g, fd ∈ h.kernel.sockets.ready g)
      ∨ (st.fdClosed = true ∧ ∃ t, st.tcb = some t ∧ t.terminal = false)

namespace Kernel

/-- The invariant: the reasons, and for every child in its handshake a listener it can go to. -/
structure Cared (own : Fd → Option Handle) (k : Kernel) : Prop where
  accounted : ∀ fd st, k.lookup fd = some st → st.ty = .stream →
    own fd ≠ none ∨ st.fdClosed = true ∨ st.Received ∨ ∃ g, fd ∈ k.sockets.ready g
  hosted : ∀ fd st, k.lookup fd = some st → st.Received →
    ∃ key g, st.bound = some key ∧ k.ListensAt key.endpoint g

/-- What a step leaves of the reasons, apart from those of `ex`. -/
structure Keeps (ex : Fd → Prop) (k k' : Kernel) : Prop where
  listeners : ∀ g st l, k.lookup g = some st → st.listen = some l →
    ∃ st' l', k'.lookup g = some st' ∧ st'.listen = some l' ∧ st'.bound = st.bound
      ∧ ∀ c ∈ l.ready, ex c ∨ c ∈ l'.ready
  sockets : ∀ fd st', k'.lookup fd = some st' → st'.ty = .stream →
    ex fd ∨ st'.Received ∨ (∃ g, fd ∈ k'.sockets.ready g) ∨
    ∃ st, k.lookup fd = some st ∧ st.ty = .stream ∧ (st.fdClosed = true → st'.fdClosed = true)
      ∧ ¬ st.Received
  children : ∀ fd st', k'.lookup fd = some st' → st'.Received →
    (∃ st, k.lookup fd = some st ∧ st.Received ∧ st'.bound = st.bound)
      ∨ ∃ key g, st'.bound = some key ∧ k'.ListensAt key.endpoint g

variable {own own' : Fd → Option Handle} {live : Fd → Prop} {ex : Fd → Prop} {k k' k'' : Kernel}
  {fd : Fd} {st : Socket} {t t' : Tcb} {loc rem : SocketAddr} {s : TcpSegment}

theorem Keeps.ready (h : Keeps ex k k') {g c : Fd} (hc : c ∈ k.sockets.ready g) :
    ex c ∨ c ∈ k'.sockets.ready g := by
  obtain ⟨st, l, hst, hl, hcl⟩ := SocketTable.mem_ready.mp hc
  obtain ⟨st', l', hst', hl', -, hq⟩ := h.listeners g st l hst hl
  rcases hq c hcl with hex | hc'
  · exact Or.inl hex
  · exact Or.inr (SocketTable.mem_ready.mpr ⟨st', l', hst', hl', hc'⟩)

theorem Keeps.listensAt (h : Keeps ex k k') {g : Fd} (hg : k.ListensAt loc g) :
    k'.ListensAt loc g := by
  obtain ⟨st, l, key, hst, hl, hb, hrest⟩ := hg
  obtain ⟨st', l', hst', hl', hb', -⟩ := h.listeners g st l hst hl
  exact ⟨st', l', key, hst', hl', hb'.trans hb, hrest⟩

theorem Keeps.refl (ex : Fd → Prop) (k : Kernel) : Keeps ex k k := by
  refine ⟨fun g st l hst hl => ⟨st, l, hst, hl, rfl, fun c hc => Or.inr hc⟩, fun fd st hst hty => ?_,
    fun fd st hst hr => Or.inl ⟨st, hst, hr, rfl⟩⟩
  by_cases hr : st.Received
  · exact Or.inr (Or.inl hr)
  · exact Or.inr (Or.inr (Or.inr ⟨st, hst, hty, fun h => h, hr⟩))

theorem Keeps.trans (h : Keeps ex k k') (h' : Keeps ex k' k'') : Keeps ex k k'' := by
  have hqueued : ∀ {c}, (∃ g, c ∈ k'.sockets.ready g) → ex c ∨ ∃ g, c ∈ k''.sockets.ready g := by
    rintro c ⟨g, hg⟩
    rcases h'.ready hg with hex | hg
    · exact Or.inl hex
    · exact Or.inr ⟨g, hg⟩
  refine ⟨fun g st l hst hl => ?_, fun fd st hst hty => ?_, fun fd st hst hr => ?_⟩
  · obtain ⟨st1, l1, hst1, hl1, hb1, hq1⟩ := h.listeners g st l hst hl
    obtain ⟨st2, l2, hst2, hl2, hb2, hq2⟩ := h'.listeners g st1 l1 hst1 hl1
    refine ⟨st2, l2, hst2, hl2, hb2.trans hb1, fun c hc => ?_⟩
    rcases hq1 c hc with hex | hc
    · exact Or.inl hex
    · exact hq2 c hc
  · rcases h'.sockets fd st hst hty with hex | hr | hq | ⟨st1, hst1, hty1, hclosed1, hr1⟩
    · exact Or.inl hex
    · exact Or.inr (Or.inl hr)
    · exact Or.inr (Or.inr (Or.inl hq))
    · rcases h.sockets fd st1 hst1 hty1 with hex | hr | hq | ⟨st0, hst0, hty0, hclosed0, hr0⟩
      · exact Or.inl hex
      · exact absurd hr hr1
      · rcases hqueued hq with hex | hq
        · exact Or.inl hex
        · exact Or.inr (Or.inr (Or.inl hq))
      · exact Or.inr (Or.inr (Or.inr ⟨st0, hst0, hty0, fun hc => hclosed1 (hclosed0 hc), hr0⟩))
  · rcases h'.children fd st hst hr with ⟨st1, hst1, hr1, hb1⟩ | hnew
    · rcases h.children fd st1 hst1 hr1 with ⟨st0, hst0, hr0, hb0⟩ | ⟨key, g, hb, hg⟩
      · exact Or.inl ⟨st0, hst0, hr0, hb1.trans hb0⟩
      · exact Or.inr ⟨key, g, hb1.trans hb, h'.listensAt hg⟩
    · exact Or.inr hnew

/-- **What is kept is enough**, when the exceptions have a reason of their own. -/
theorem Cared.of_keeps (hc : k.Cared own) (h : Keeps ex k k')
    (hown : ∀ fd, ¬ ex fd → own fd ≠ none → own' fd ≠ none)
    (hex : ∀ fd st, ex fd → k'.lookup fd = some st → st.ty = .stream →
      own' fd ≠ none ∨ st.fdClosed = true ∨ st.Received ∨ ∃ g, fd ∈ k'.sockets.ready g) :
    k'.Cared own' := by
  refine ⟨fun fd st hst hty => ?_, fun fd st hst hr => ?_⟩
  · by_cases he : ex fd
    · exact hex fd st he hst hty
    · rcases h.sockets fd st hst hty with he' | hr | hq | ⟨st0, hst0, hty0, hclosed, hr0⟩
      · exact absurd he' he
      · exact Or.inr (Or.inr (Or.inl hr))
      · exact Or.inr (Or.inr (Or.inr hq))
      · rcases hc.accounted fd st0 hst0 hty0 with ho | hcl | hr | ⟨g, hg⟩
        · exact Or.inl (hown fd he ho)
        · exact Or.inr (Or.inl (hclosed hcl))
        · exact absurd hr hr0
        · exact Or.inr (Or.inr (Or.inr ⟨g, (h.ready hg).resolve_left he⟩))
  · rcases h.children fd st hst hr with ⟨st0, hst0, hr0, hb⟩ | hnew
    · obtain ⟨key, g, hkey, hg⟩ := hc.hosted fd st0 hst0 hr0
      exact ⟨key, g, hb.trans hkey, h.listensAt hg⟩
    · exact hnew

/-- The step that makes no exception. -/
theorem Cared.kept (hc : k.Cared own) (h : Keeps (fun _ => False) k k') : k'.Cared own :=
  hc.of_keeps h (fun _ _ ho => ho) fun _ _ he => he.elim

/-! ## 2. Steps that keep the reasons -/

/-- Only the sockets count. -/
theorem Keeps.of_lookup (h : ∀ g, k'.lookup g = k.lookup g) : Keeps ex k k' := by
  have hrefl := Keeps.refl ex k
  refine ⟨fun g st l hst hl => ?_, fun fd st hst hty => ?_, fun fd st hst hr => ?_⟩
  · exact ⟨st, l, (h g).trans hst, hl, rfl, fun c hc => Or.inr hc⟩
  · rw [h] at hst
    rcases hrefl.sockets fd st hst hty with h1 | h1 | ⟨g, h1⟩ | h1
    · exact Or.inl h1
    · exact Or.inr (Or.inl h1)
    · refine Or.inr (Or.inr (Or.inl ⟨g, ?_⟩))
      rwa [SocketTable.ready_of_get (h g)]
    · exact Or.inr (Or.inr (Or.inr h1))
  · rw [h] at hst
    exact Or.inl ⟨st, hst, hr, rfl⟩

theorem Keeps.of_sockets (h : k'.sockets = k.sockets) : Keeps ex k k' :=
  Keeps.of_lookup fun g => by rw [lookup, lookup, h]

/-- A socket is changed in place. -/
theorem Keeps.modify (hst : k.lookup fd = some st) {f : Socket → Socket}
    (hty : (f st).ty = st.ty) (hlisten : (f st).listen = st.listen)
    (hclosed : st.fdClosed = true → (f st).fdClosed = true)
    (hb : st.listen ≠ none ∨ st.Received → (f st).bound = st.bound)
    (hr : (f st).Received ↔ st.Received) : Keeps ex k (k.modifySocket fd f) := by
  have hlook : ∀ {g st'}, (k.modifySocket fd f).lookup g = some st' →
      (g = fd ∧ st' = f st) ∨ (g ≠ fd ∧ k.lookup g = some st') := by
    intro g st' h
    rw [lookup_modifySocket] at h
    split at h
    · rename_i hg
      rw [hst] at h
      cases h
      exact Or.inl ⟨hg, rfl⟩
    · rename_i hg
      exact Or.inr ⟨hg, h⟩
  refine ⟨fun g st' l hg hl => ?_, fun g st' hg hty' => ?_, fun g st' hg hr' => ?_⟩
  · rw [lookup_modifySocket]
    split
    · rename_i hgf
      subst hgf
      cases hst.symm.trans hg
      refine ⟨f st, l, by rw [hst]; rfl, hlisten.trans hl, hb (Or.inl ?_), fun c hc => Or.inr hc⟩
      rw [hl]
      exact Option.some_ne_none l
    · exact ⟨st', l, hg, hl, rfl, fun c hc => Or.inr hc⟩
  · by_cases hr' : st'.Received
    · exact Or.inr (Or.inl hr')
    · rcases hlook hg with ⟨rfl, rfl⟩ | ⟨hgf, hg⟩
      · exact Or.inr (Or.inr (Or.inr ⟨st, hst, hty.symm.trans hty', hclosed, fun h => hr' (hr.mpr h)⟩))
      · exact Or.inr (Or.inr (Or.inr ⟨st', hg, hty', fun h => h, hr'⟩))
  · rcases hlook hg with ⟨rfl, rfl⟩ | ⟨hgf, hg⟩
    · exact Or.inl ⟨st, hst, hr.mp hr', hb (Or.inr (hr.mp hr'))⟩
    · exact Or.inl ⟨st', hg, hr', rfl⟩

/-- A control block goes on, in its handshake or past it as before. -/
theorem Keeps.setTcb (hst : k.lookup fd = some st) (ht : st.tcb = some t)
    (hs : t'.state = .synReceived ↔ t.state = .synReceived) : Keeps ex k (k.setTcb fd t') := by
  refine Keeps.modify hst rfl rfl (fun h => h) (fun _ => rfl) ⟨?_, ?_⟩
  · rintro ⟨t1, h1, h2⟩
    cases h1
    exact ⟨t, ht, hs.mp h2⟩
  · rintro ⟨t1, h1, h2⟩
    cases ht.symm.trans h1
    exact ⟨t', rfl, hs.mpr h2⟩

theorem abortWith_keeps (hst : k.lookup fd = some st) (hr : ¬ st.Received) (reason : AbortReason) :
    Safe (Keeps ex k) (k.abortWith fd reason) := by
  refine Safe.bind (Safe.expect (p := fun _ => True) _ hst trivial) fun _ _ => ?_
  refine Keeps.modify hst rfl rfl (fun h => h) (fun _ => rfl) ⟨?_, fun h => absurd h hr⟩
  rintro ⟨t1, h1, h2⟩
  obtain ⟨t, -, rfl⟩ := Option.map_eq_some_iff.mp h1
  cases h2

/-- A socket goes that does not listen. -/
theorem Keeps.remove (hl : ∀ st, k.lookup fd = some st → st.listen = none) :
    Keeps ex k (k.removeSocket fd) := by
  have hlook : ∀ {g st'}, (k.removeSocket fd).lookup g = some st' → k.lookup g = some st' := by
    intro g st' h
    rw [lookup_removeSocket] at h
    split at h
    · cases h
    · exact h
  refine ⟨fun g st l hg hl' => ?_, fun g st hg hty => ?_, fun g st hg hr => ?_⟩
  · have hgf : g ≠ fd := by
      rintro rfl
      rw [hl st hg] at hl'
      cases hl'
    exact ⟨st, l, by rw [lookup_removeSocket, if_neg hgf]; exact hg, hl', rfl, fun c hc => Or.inr hc⟩
  · by_cases hr : st.Received
    · exact Or.inr (Or.inl hr)
    · exact Or.inr (Or.inr (Or.inr ⟨st, hlook hg, hty, fun h => h, hr⟩))
  · exact Or.inl ⟨st, hlook hg, hr, rfl⟩

/-- One of several listeners at an address is found. -/
theorem findListener_ne_none (h : k.Tidy own live) {g : Fd} (hg : k.ListensAt loc g) :
    k.findListener loc ≠ .ok none := by
  obtain ⟨st, l, key, hst, hl, hb, hdom, hport, haddr⟩ := hg
  have hfit := h.socket g st hst
  have hty : key.ty = .stream :=
    (hfit.key key hb).2.1.trans (hfit.listen (by rw [hl]; exact Option.some_ne_none l)).1
  have hmem := (h.listed key g).mpr ⟨st, hst, hb⟩
  have hfirst : ∀ fds : List Fd, g ∈ fds → findListener.firstListener k fds ≠ .ok none := by
    intro fds
    induction fds with
    | nil =>
      intro hnil
      cases hnil
    | cons x fds ih =>
      intro hx hnone
      obtain ⟨xst, hxst, hnone⟩ := bind_eq_ok.mp hnone
      split at hnone
      · cases hnone
      · rename_i hxl
        rcases List.mem_cons.mp hx with rfl | hx
        · cases (expect_eq_ok.mp hxst).symm.trans hst
          rw [hl] at hxl
          exact hxl rfl
        · exact ih hx hnone
  refine hfirst _ (List.mem_append.mpr ?_)
  obtain ⟨domain, ty, addr, port⟩ := key
  cases hdom
  cases hty
  cases hport
  rcases haddr with haddr | haddr
  · cases haddr
    exact Or.inl hmem
  · cases haddr
    exact Or.inr hmem

/-! ## 3. Inbound segments -/

/-- Would this packet reset a child in its handshake? -/
def resetsChild (k : Kernel) (pkt : Packet) : Bool :=
  match pkt.payload with
  | .udp _ => false
  | .tcp s =>
    s.flags.rst && match k.sockets.findConnection ⟨pkt.dst, s.dstPort⟩ ⟨pkt.src, s.srcPort⟩ with
      | some fd => (k.tcb? fd).any (·.state == .synReceived)
      | none => false

/-- **The end of a handshake on the server**: the child is in the queue of a listener. -/
theorem established_keeps (ht : k.Tidy own fun _ => True) (hc : k.Cared own)
    (hst : k.lookup fd = some st) (htcb : st.tcb = some t) (hs : t.state = .synReceived)
    (hb : ∀ key, st.bound = some key → key.endpoint = loc) (hcont : t.Continues t')
    (hs' : t'.state = .established) :
    Safe (Keeps (fun _ => False) k) ((k.setTcb fd t').pushToListener fd loc) := by
  have hnolisten : st.listen = none :=
    ((ht.socket fd st hst).tcb (by rw [htcb]; exact Option.some_ne_none t)).2.2
  have hlook : ∀ g, (k.setTcb fd t').lookup g
      = if g = fd then some { st with tcb := some t' } else k.lookup g := by
    intro g
    rw [lookup_setTcb, hst]
    rfl
  have hlistener : ∀ {g st' l}, k.lookup g = some st' → st'.listen = some l →
      g ≠ fd ∧ (k.setTcb fd t').lookup g = some st' := by
    intro g st' l hg hl
    have hgf : g ≠ fd := by
      rintro rfl
      cases hst.symm.trans hg
      rw [hnolisten] at hl
      cases hl
    exact ⟨hgf, by rw [hlook, if_neg hgf]; exact hg⟩
  -- the child's listener is found
  obtain ⟨key, g0, hkey, hg0⟩ := hc.hosted fd st hst ⟨t, htcb, hs⟩
  rw [hb key hkey] at hg0
  have hg1 : (k.setTcb fd t').ListensAt loc g0 := by
    obtain ⟨st', l, key', hst', hl, hrest⟩ := hg0
    exact ⟨st', l, key', (hlistener hst' hl).2, hl, hrest⟩
  have h1 := ht.setTcb hst htcb hcont
  refine (pushToListener_cases h1 fd loc).mono fun k' hk' => ?_
  rcases hk' with ⟨-, hnone⟩ | ⟨g, ⟨gst, l, gkey, hgst, hgl, -⟩, rfl⟩
  · exact absurd hnone (findListener_ne_none h1 hg1)
  · have hgf : g ≠ fd := by
      rintro rfl
      rw [hlook, if_pos rfl] at hgst
      cases hgst
      rw [hnolisten] at hgl
      cases hgl
    have hgst0 : k.lookup g = some gst := by
      rw [hlook, if_neg hgf] at hgst
      exact hgst
    have hqueued : fd ∈ ((k.setTcb fd t').modifySocket g fun st => { st with
        listen := st.listen.map fun l => { l with ready := l.ready ++ [fd] } }).sockets.ready g := by
      refine SocketTable.mem_ready.mpr ⟨{ gst with
        listen := gst.listen.map fun l => { l with ready := l.ready ++ [fd] } },
        { l with ready := l.ready ++ [fd] }, ?_, by rw [hgl]; rfl, by simp⟩
      show Kernel.lookup _ g = _
      rw [lookup_modifySocket, if_pos rfl, hgst]
      rfl
    -- a socket of the new table
    have hnew : ∀ {x st'}, ((k.setTcb fd t').modifySocket g fun st => { st with
        listen := st.listen.map fun l => { l with ready := l.ready ++ [fd] } }).lookup x = some st' →
        x = fd ∧ st' = { st with tcb := some t' } ∨ ∃ st0, k.lookup x = some st0
          ∧ st'.ty = st0.ty ∧ st'.tcb = st0.tcb ∧ st'.bound = st0.bound
          ∧ st'.fdClosed = st0.fdClosed := by
      intro x st' hx
      rw [lookup_modifySocket] at hx
      split at hx
      · rename_i hxg
        rw [hgst] at hx
        cases hx
        exact Or.inr ⟨gst, by rw [hxg]; exact hgst0, rfl, rfl, rfl, rfl⟩
      · rw [hlook] at hx
        split at hx
        · rename_i hxf
          cases hx
          exact Or.inl ⟨hxf, rfl⟩
        · exact Or.inr ⟨st', hx, rfl, rfl, rfl, rfl⟩
    refine ⟨fun x st' l' hx hl' => ?_, fun x st' hx hty => ?_, fun x st' hx hr => ?_⟩
    · obtain ⟨hxf, hx1⟩ := hlistener hx hl'
      rw [lookup_modifySocket]
      split
      · rename_i hxg
        rw [hxg] at hx1
        cases hgst.symm.trans hx1
        cases hgl.symm.trans hl'
        refine ⟨{ gst with listen := gst.listen.map fun l => { l with ready := l.ready ++ [fd] } },
          { l with ready := l.ready ++ [fd] }, by rw [hgst]; rfl, ?_, rfl,
          fun c hc => Or.inr (List.mem_append_left _ hc)⟩
        show gst.listen.map _ = _
        rw [hgl]
        rfl
      · exact ⟨st', l', hx1, hl', rfl, fun c hc => Or.inr hc⟩
    · rcases hnew hx with ⟨rfl, -⟩ | ⟨st0, hst0, h2, h3, h4, h5⟩
      · exact Or.inr (Or.inr (Or.inl ⟨g, hqueued⟩))
      · by_cases hr : st'.Received
        · exact Or.inr (Or.inl hr)
        · refine Or.inr (Or.inr (Or.inr ⟨st0, hst0, h2.symm.trans hty, fun h => h5.trans h,
            fun hr0 => hr ?_⟩))
          rwa [Socket.Received, h3]
    · rcases hnew hx with ⟨-, rfl⟩ | ⟨st0, hst0, h2, h3, h4, h5⟩
      · obtain ⟨t1, ht1, hs1⟩ := hr
        cases ht1
        rw [hs'] at hs1
        cases hs1
      · refine Or.inl ⟨st0, hst0, ?_, h4⟩
        rwa [Socket.Received, h3] at hr

theorem handleOnConnection_keeps (ht : k.Tidy own fun _ => True) (hc : k.Cared own)
    (hf : k.sockets.findConnection loc rem = some fd)
    (hrst : s.flags.rst = true → ∀ st, k.lookup fd = some st → ¬ st.Received) :
    Safe (Keeps (fun _ => False) k) (k.handleOnConnection fd loc rem s) := by
  obtain ⟨st, t, key, hst, htcb, hpeer, hb, hloc⟩ := ht.of_connection hf
  unfold handleOnConnection
  split
  · rename_i hr
    exact abortWith_keeps hst (hrst hr st hst) .reset
  · refine Safe.bind (Safe.expect (p := fun st' => st' = st) _ hst rfl) fun st' hst' => ?_
    subst hst'
    refine Safe.bind (Safe.expect (p := fun t' => t' = t) _ htcb rfl) fun t' ht' => ?_
    subst ht'
    -- past the handshake nothing leads back
    have hdata : t'.state ≠ .synReceived →
        Safe (Keeps (fun _ => False) k) (k.handleEstablished fd loc rem t' s) := by
      intro hs
      refine Safe.bind (t'.handleEstablished_safe k.cfg.recvBufCap s) fun r hr => ?_
      obtain ⟨t1, sendAck⟩ := r
      have hk : Keeps (fun _ => False) k (k.setTcb fd t1) :=
        Keeps.setTcb hst htcb ⟨hr.received, fun h => absurd h hs⟩
      cases sendAck
      · exact hk
      · exact hk.trans (Keeps.of_sockets rfl)
    split
    · rename_i hstate
      split
      · have hk : Keeps (fun _ => False) k (k.setTcb fd (t'.onSynAck s)) := by
          refine Keeps.setTcb hst htcb ⟨?_, ?_⟩
          · intro h
            cases h
          · intro h
            rw [hstate] at h
            cases h
        exact hk.trans (Keeps.of_sockets rfl)
      · exact Keeps.refl _ k
    · rename_i hstate
      split
      · split
        · exact Keeps.refl _ k
        · refine established_keeps ht hc hst htcb hstate (fun key' hkey' => ?_)
            ⟨rfl, fun h => ?_, fun h => ?_⟩ rfl
          · cases hb.symm.trans hkey'
            exact hloc
          · rw [hstate] at h
            cases h
          · cases h
      · exact Keeps.refl _ k
    all_goals first
      | exact Keeps.refl _ k
      | exact hdata (by simp [*])

/-- The table after a SYN: as before, or with a new child. -/
theorem acceptSyn_lookup {g : Fd} (h : k.acceptSyn g loc rem s = .ok k') : k' = k ∨
    ∃ child : Socket, child.listen = none ∧ child.Received ∧ child.bound.map BindKey.endpoint = some loc
      ∧ ∀ x, k'.lookup x = if x = k.sockets.nextId then some child else k.lookup x := by
  obtain ⟨st, hst, h⟩ := bind_eq_ok.mp h
  obtain ⟨l, hl, h⟩ := bind_eq_ok.mp h
  split at h
  · cases h
    exact Or.inl rfl
  · obtain ⟨_, -, h⟩ := bind_eq_ok.mp h
    obtain ⟨sockets, hs, h⟩ := bind_eq_ok.mp h
    unfold SocketTable.insertConnection at hs
    split at hs
    · cases hs
    · cases hs
      cases h
      refine Or.inr ⟨{ Socket.new st.domain st.ty with
        bound := some ⟨st.domain, st.ty, loc.ip, loc.port⟩
        peer := some rem
        tcb := some (Tcb.fresh .synReceived rem k.tcpIsn s.window (s.seq + 1)) }, rfl, ⟨_, rfl, rfl⟩,
        rfl, fun x => ?_⟩
      rw [lookup_emit]
      simp only [lookup, SocketTable.get, SocketTable.insertBinding, modifySocket,
        SocketTable.modify, IndexMap.get?_modify, IndexMap.get?_insert, if_true, Option.map_some]
      split <;> rfl

/-- A new child, and the listener it can go to. -/
theorem acceptSyn_keeps (ht : k.Tidy own live) {g : Fd} (hg : k.ListensAt loc g)
    (hnone : k.sockets.findConnection loc rem = none) :
    Safe (Keeps (fun _ => False) k) (k.acceptSyn g loc rem s) := by
  obtain ⟨hnext, -⟩ := SocketTable.Tidy.next ht
  refine (acceptSyn_safe ht hg hnone s).returning fun k' hk' => ?_
  rcases acceptSyn_lookup hk' with rfl | ⟨child, hl, hr, hb, hlook⟩
  · exact Keeps.refl _ k'
  · have hold : ∀ {x st}, k.lookup x = some st → k'.lookup x = some st := by
      intro x st hx
      have hne : x ≠ k.sockets.nextId := by
        rintro rfl
        exact Option.some_ne_none st (hx.symm.trans hnext)
      rw [hlook, if_neg hne]
      exact hx
    refine ⟨fun x st l hx hl => ⟨st, l, hold hx, hl, rfl, fun c hc => Or.inr hc⟩,
      fun x st hx hty => ?_, fun x st hx hr' => ?_⟩
    · rw [hlook] at hx
      by_cases hr' : st.Received
      · exact Or.inr (Or.inl hr')
      · split at hx
        · cases hx
          exact absurd hr hr'
        · exact Or.inr (Or.inr (Or.inr ⟨st, hx, hty, fun h => h, hr'⟩))
    · rw [hlook] at hx
      split at hx
      · cases hx
        obtain ⟨key, hkey, hend⟩ := Option.map_eq_some_iff.mp hb
        obtain ⟨gst, gl, gkey, hgst, hgl, hgb, h1, h2, h3⟩ := hg
        rw [← hend] at h1 h2 h3
        exact Or.inr ⟨key, g, hkey, gst, gl, gkey, hold hgst, hgl, hgb, h1, h2, h3⟩
      · exact Or.inl ⟨st, hx, hr', rfl⟩

/-- **A packet keeps the reasons**, unless it resets a child in its handshake. -/
theorem deliver_keeps (ht : k.Tidy own fun _ => True) (hc : k.Cared own) {pkt : Packet}
    (hspare : k.resetsChild pkt = false) : Safe (Keeps (fun _ => False) k) (k.deliver pkt) := by
  unfold deliver
  cases hp : pkt.payload with
  | udp d =>
    refine (udpDeliver_safe ht pkt d).returning fun k' hk' => ?_
    unfold udpDeliver at hk'
    dsimp only at hk'
    split at hk'
    · cases hk'
      exact Keeps.refl _ k
    · obtain ⟨st, hst, hk'⟩ := bind_eq_ok.mp hk'
      split at hk'
      · cases hk'
        exact Keeps.refl _ k
      · cases hk'
        exact Keeps.modify (expect_eq_ok.mp hst) rfl rfl (fun h => h) (fun _ => rfl) Iff.rfl
  | tcp s =>
    dsimp only
    unfold tcpDeliver
    dsimp only
    rw [resetsChild, hp] at hspare
    dsimp only at hspare
    split
    · rename_i fd hf
      refine handleOnConnection_keeps ht hc hf fun hrst st hst hr => ?_
      obtain ⟨t, htcb, hs⟩ := hr
      have hany : (k.tcb? fd).any (·.state == .synReceived) = true := by
        simp [tcb?, hst, htcb, hs]
      rw [hrst, hf] at hspare
      dsimp only at hspare
      rw [hany] at hspare
      cases hspare
    · rename_i hnone
      split
      · refine Safe.bind (findListener_safe ht _) fun o ho => ?_
        cases o with
        | none => exact Keeps.of_sockets rfl
        | some g => exact acceptSyn_keeps ht (ho g rfl) hnone
      · split
        · exact Keeps.refl _ k
        · exact Keeps.of_sockets rfl

/-! ## 4. The sweeps of `egress` -/

/-- Would the check give up a child in its handshake? -/
def abandonsChild (k : Kernel) : Bool :=
  k.sockets.sockets.entries.any fun e => match e.2.tcb with
    | some t => t.state == .synReceived
        && (t.checkRetx k.cfg.retxThreshold k.cfg.retxMax).2 == .abort
    | none => false

theorem countAll_keeps : ∀ {fds : List Fd} {k k' : Kernel} {resend abort : List Fd},
    countAll k fds = .ok (k', resend, abort) → Keeps ex k k'
      ∧ ∀ fd st', k'.lookup fd = some st' → ∃ st, k.lookup fd = some st
        ∧ (st'.Received → st.Received)
  | [], k, k', resend, abort, h => by
    cases h
    exact ⟨Keeps.refl _ k, fun fd st hst => ⟨st, hst, fun h => h⟩⟩
  | g :: fds, k, k', resend, abort, h => by
    obtain ⟨⟨k1, action⟩, h1, h⟩ := bind_eq_ok.mp h
    obtain ⟨⟨k2, resend2, abort2⟩, h2, h⟩ := bind_eq_ok.mp h
    obtain ⟨t, ht, h1⟩ := bind_eq_ok.mp h1
    obtain ⟨st, hst, htcb⟩ := Option.bind_eq_some_iff.mp (expect_eq_ok.mp ht)
    obtain ⟨hk1, -⟩ : k.setTcb g (t.checkRetx k.cfg.retxThreshold k.cfg.retxMax).1 = k1
        ∧ (t.checkRetx k.cfg.retxThreshold k.cfg.retxMax).2 = action :=
      Prod.mk.inj (Except.ok.inj h1)
    obtain ⟨hk2, -⟩ := Prod.mk.inj (Except.ok.inj h)
    obtain ⟨-, hstate, -⟩ := t.checkRetx_state k.cfg.retxThreshold k.cfg.retxMax
    obtain ⟨hkeep, hback⟩ := countAll_keeps h2
    subst hk2
    have hone : Keeps ex k k1 := by
      rw [← hk1]
      exact Keeps.setTcb hst htcb (by rw [hstate])
    refine ⟨hone.trans hkeep, fun fd st' hst' => ?_⟩
    obtain ⟨st1, hst1, hr1⟩ := hback fd st' hst'
    rw [← hk1, lookup_setTcb] at hst1
    split at hst1
    · rename_i hfd
      rw [hst] at hst1
      cases hst1
      refine ⟨st, by rw [hfd]; exact hst, fun hr => ?_⟩
      obtain ⟨t1, ht1, hs1⟩ := hr1 hr
      cases ht1
      exact ⟨t, htcb, hstate.symm.trans hs1⟩
    · exact ⟨st1, hst1, hr1⟩

/-- **The retransmission check keeps the reasons**, unless it gives up a child in its handshake. -/
theorem checkRetx_keeps (ht : k.Tidy own live) (hspare : k.abandonsChild = false) :
    Safe (Keeps (fun _ => False) k) k.checkRetx := by
  refine (checkRetx_safe ht).returning fun k' hk' => ?_
  obtain ⟨⟨k1, resend, abort⟩, h1, hk'⟩ := bind_eq_ok.mp hk'
  obtain ⟨k2, h2, hk'⟩ := bind_eq_ok.mp hk'
  have hnodup := k.nodup_candidates Tcb.awaitsAck
  obtain ⟨hkeep1, hback⟩ := countAll_keeps h1
  -- what is given up is not in its handshake
  have habort : ∀ fd ∈ abort, ∀ st, k1.lookup fd = some st → ¬ st.Received := by
    intro fd hfd st hst hr
    obtain ⟨t, ht, hact⟩ := countAll_abort hnodup h1 fd hfd
    obtain ⟨st0, hst0, hr0⟩ := hback fd st hst
    obtain ⟨st1, hst1, htcb⟩ := Option.bind_eq_some_iff.mp ht
    cases hst0.symm.trans hst1
    obtain ⟨t', ht', hs⟩ := hr0 hr
    cases htcb.symm.trans ht'
    rw [abandonsChild, List.any_eq_false] at hspare
    exact hspare (fd, st0) (IndexMap.mem_entries.mpr hst0) (by simp [htcb, hs, hact])
  -- the handshakes are only sent again
  have hsockets : ∀ {fds : List Fd} {a b : Kernel}, fds.foldlM emitHandshake a = .ok b →
      b.sockets = a.sockets := by
    intro fds
    induction fds with
    | nil =>
      intro a b hab
      cases hab
      rfl
    | cons fd fds ih =>
      intro a b hab
      obtain ⟨c, hc, hab⟩ := bind_eq_ok.mp hab
      obtain ⟨st, -, hc⟩ := bind_eq_ok.mp hc
      obtain ⟨t, -, hc⟩ := bind_eq_ok.mp hc
      obtain ⟨loc, -, hc⟩ := bind_eq_ok.mp hc
      obtain ⟨seg, -, hc⟩ := bind_eq_ok.mp hc
      cases hc
      have hbc := ih hab
      exact hbc
  have h12 := hsockets h2
  have hfold : ∀ {fds : List Fd} {a b : Kernel},
      (∀ fd ∈ fds, ∀ st, a.lookup fd = some st → ¬ st.Received) →
      fds.foldlM (fun k fd => k.abortWith fd .timedOut) a = .ok b → Keeps (fun _ => False) a b := by
    intro fds
    induction fds with
    | nil =>
      intro a b _ hab
      cases hab
      exact Keeps.refl _ a
    | cons fd fds ih =>
      intro a b hfds hab
      obtain ⟨c, hc, hab⟩ := bind_eq_ok.mp hab
      obtain ⟨st, hst, hc'⟩ := bind_eq_ok.mp hc
      replace hst := expect_eq_ok.mp hst
      have hac : Keeps (fun _ => False) a c :=
        (abortWith_keeps hst (hfds fd List.mem_cons_self st hst) .timedOut).of_ok hc
      refine hac.trans (ih (fun g hg gst hgst => ?_) hab)
      cases hc'
      rw [lookup_modifySocket] at hgst
      split at hgst
      · rw [hst] at hgst
        cases hgst
        rintro ⟨t1, ht1, hs1⟩
        obtain ⟨t0, -, rfl⟩ := Option.map_eq_some_iff.mp ht1
        cases hs1
      · exact hfds g (List.mem_cons_of_mem fd hg) gst hgst
  refine hkeep1.trans ((Keeps.of_sockets h12).trans (hfold (fun fd hfd st hst => ?_) hk'))
  rw [lookup, h12] at hst
  exact habort fd hfd st hst

theorem segmentAll_keeps (ht : k.Tidy own live) : Safe (Keeps (fun _ => False) k) k.segmentAll := by
  refine (segmentAll_safe ht).returning fun k' hk' => ?_
  have hfold : ∀ {fds : List Fd} {a b : Kernel}, fds.foldlM segmentOne a = .ok b →
      Keeps (fun _ => False) a b := by
    intro fds
    induction fds with
    | nil =>
      intro a b hab
      cases hab
      exact Keeps.refl _ a
    | cons fd fds ih =>
      intro a b hab
      obtain ⟨c, hc, hab⟩ := bind_eq_ok.mp hab
      obtain ⟨st, hst, hc⟩ := bind_eq_ok.mp hc
      obtain ⟨loc, -, hc⟩ := bind_eq_ok.mp hc
      obtain ⟨t, htcb, hc⟩ := bind_eq_ok.mp hc
      obtain ⟨⟨t', segs⟩, hloop, hc⟩ := bind_eq_ok.mp hc
      have hstate := ((t.segmentLoop_safe _ _ _ _).of_ok hloop).2
      cases hc
      exact ((Keeps.setTcb (expect_eq_ok.mp hst) (expect_eq_ok.mp htcb) (by rw [hstate])).trans
        (Keeps.of_sockets (sockets_emitAll _ _ _ _))).trans (ih hab)
  exact hfold hk'

/-- Does the drain of `egress` reset no child in its handshake? -/
def routeSpares : Kernel → List Packet → Bool
  | _, [] => true
  | k, pkt :: pkts =>
    if k.isLocal pkt.dst then
      !k.resetsChild pkt && match k.deliver pkt with
        | .ok k => routeSpares k pkts
        | .error _ => true
    else routeSpares k pkts

/-- Nor any of its passes? -/
def loopSpares : Nat → Kernel → Bool
  | 0, _ => true
  | fuel + 1, k =>
    match k.segmentAll with
    | .error _ => true
    | .ok k =>
      k.outbound.isEmpty || (routeSpares { k with outbound := [] } k.outbound
        && match route { k with outbound := [] } k.outbound with
          | .ok (k, _) => loopSpares fuel k
          | .error _ => true)

/-- **Does a turn of `egress` spare the children in their handshake?**  It gives none up, and none is
reset by what it delivers on the host. -/
def egressSpares (fuel : Nat) (k : Kernel) : Bool :=
  !k.abandonsChild && match k.checkRetx with
    | .ok k => loopSpares fuel k
    | .error _ => true

theorem route_keeps : ∀ {pkts : List Packet} {k : Kernel}, k.Tidy own (fun _ => True) →
    k.Cared own → routeSpares k pkts = true →
    Safe (fun r => Keeps (fun _ => False) k r.1) (route k pkts)
  | [], k, _, _, _ => Keeps.refl _ k
  | pkt :: pkts, k, ht, hc, hs => by
    unfold routeSpares at hs
    unfold route
    split
    · rename_i hlocal
      rw [if_pos hlocal, Bool.and_eq_true, Bool.not_eq_true'] at hs
      refine Safe.bindEq ((deliver_safe ht pkt).and (deliver_keeps ht hc hs.1)) fun k1 hk1 h1 => ?_
      rw [hk1] at hs
      exact (route_keeps h1.1 (hc.kept h1.2) hs.2).mono fun r hr => h1.2.trans hr
    · rename_i hlocal
      rw [if_neg hlocal] at hs
      exact Safe.bind (route_keeps ht hc hs) fun r hr => hr

theorem egressLoop_keeps (fuel : Nat) : ∀ {k : Kernel}, k.Tidy own (fun _ => True) →
    k.Cared own → loopSpares fuel k = true →
    Safe (fun r => Keeps (fun _ => False) k r.1) (egressLoop fuel k) := by
  induction fuel with
  | zero => exact fun _ _ _ => trivial
  | succ fuel ih =>
    intro k ht hc hs
    unfold loopSpares at hs
    refine Safe.bindEq ((segmentAll_safe ht).and (segmentAll_keeps ht)) fun k1 hk1 h1 => ?_
    rw [hk1] at hs
    dsimp only at hs
    split
    · exact h1.2
    · rename_i hout
      rw [Bool.or_eq_true, or_iff_right hout, Bool.and_eq_true] at hs
      have ht1 : ({ k1 with outbound := [] } : Kernel).Tidy own fun _ => True := h1.1
      have hk1 : Keeps (fun _ => False) k { k1 with outbound := [] } :=
        h1.2.trans (Keeps.of_sockets rfl)
      have hc1 := hc.kept hk1
      refine Safe.bindEq ((route_safe ht1).and (route_keeps ht1 hc1 hs.1)) fun r hr h2 => ?_
      obtain ⟨k2, out⟩ := r
      rw [hr] at hs
      have hk2 := hk1.trans h2.2
      exact Safe.bind (ih h2.1 (hc.kept hk2) hs.2) fun r h3 => hk2.trans h3

theorem lookup_foldl_removeSocket {fds : List Fd} : ∀ {k : Kernel} {fd : Fd} {st : Socket},
    (fds.foldl removeSocket k).lookup fd = some st → k.lookup fd = some st ∧ fd ∉ fds := by
  induction fds with
  | nil => exact fun h => ⟨h, List.not_mem_nil⟩
  | cons g fds ih =>
    intro k fd st h
    obtain ⟨h1, h2⟩ := ih h
    rw [lookup_removeSocket] at h1
    split at h1
    · cases h1
    · rename_i hne
      exact ⟨h1, fun hmem => (List.mem_cons.mp hmem).elim hne h2⟩

theorem reapClosed_keeps (ht : k.Tidy own live) : Keeps ex k k.reapClosed := by
  have hfold : ∀ (fds : List Fd) (k' : Kernel),
      (∀ fd ∈ fds, ∀ st, k'.lookup fd = some st → st.listen = none) →
      Keeps ex k' (fds.foldl removeSocket k') := by
    intro fds
    induction fds with
    | nil => exact fun k' _ => Keeps.refl ex k'
    | cons fd fds ih =>
      intro k' hfds
      refine (Keeps.remove (hfds fd List.mem_cons_self)).trans (ih _ fun g hg st hst => ?_)
      rw [lookup_removeSocket] at hst
      split at hst
      · cases hst
      · exact hfds g (List.mem_cons_of_mem fd hg) st hst
  refine hfold _ k fun fd hfd st hst => ?_
  obtain ⟨⟨fd', st'⟩, hmem, rfl⟩ := List.mem_map.mp hfd
  obtain ⟨hmem, hreap⟩ := List.mem_filter.mp hmem
  cases (IndexMap.mem_entries.mp hmem).symm.trans hst
  by_contra hl
  have hclosed := ((ht.socket _ _ hst).listen hl).2.2
  rw [(Bool.and_eq_true_iff.mp hreap).1] at hclosed
  cases hclosed

/-- After the reaping TCP is not done with what the application has closed. -/
theorem not_terminal_of_reapClosed (hst : k.reapClosed.lookup fd = some st)
    (hclosed : st.fdClosed = true) : ∃ t, st.tcb = some t ∧ t.terminal = false := by
  obtain ⟨hst0, hnot⟩ := lookup_foldl_removeSocket hst
  have hreap : reapable st = false := by
    by_contra hr
    rw [Bool.not_eq_false] at hr
    exact hnot (List.mem_map.mpr ⟨(fd, st),
      List.mem_filter.mpr ⟨IndexMap.mem_entries.mpr hst0, hr⟩, rfl⟩)
  unfold reapable at hreap
  rw [hclosed, Bool.true_and] at hreap
  cases ht : st.tcb with
  | none =>
    rw [ht] at hreap
    cases hreap
  | some t =>
    rw [ht] at hreap
    exact ⟨t, rfl, hreap⟩

/-- **A turn of `egress` that spares the children keeps the reasons.** -/
theorem egress_cared (ht : k.Tidy own fun _ => True) (hc : k.Cared own) {fuel : Nat}
    (hs : egressSpares fuel k = true) :
    Safe (fun r => r.1.Cared own ∧ ∀ fd st, r.1.lookup fd = some st → st.fdClosed = true →
      ∃ t, st.tcb = some t ∧ t.terminal = false) (k.egress fuel) := by
  unfold egressSpares at hs
  rw [Bool.and_eq_true, Bool.not_eq_true'] at hs
  refine Safe.bindEq ((checkRetx_safe ht).and (checkRetx_keeps ht hs.1)) fun k1 hk1 h1 => ?_
  rw [hk1] at hs
  refine Safe.bind ((egressLoop_safe fuel h1.1).and
    (egressLoop_keeps fuel h1.1 (hc.kept h1.2) hs.2)) fun r h2 => ?_
  exact ⟨hc.kept ((h1.2.trans h2.2).trans (reapClosed_keeps h2.1)),
    fun fd st hst => not_terminal_of_reapClosed hst⟩

/-! ## 5. The calls of the application -/

/-- Only one socket is touched. -/
def OnlyAt (fd : Fd) (k k' : Kernel) : Prop := ∀ g, g ≠ fd → k'.lookup g = k.lookup g

theorem OnlyAt.refl (fd : Fd) (k : Kernel) : OnlyAt fd k k := fun _ _ => rfl

theorem OnlyAt.trans (h : OnlyAt fd k k') (h' : OnlyAt fd k' k'') : OnlyAt fd k k'' :=
  fun g hg => (h' g hg).trans (h g hg)

theorem OnlyAt.modify (k : Kernel) (fd : Fd) (f : Socket → Socket) :
    OnlyAt fd k (k.modifySocket fd f) := by
  intro g hg
  rw [lookup_modifySocket, if_neg hg]

theorem tcpPollSend_only (k : Kernel) (fd : Fd) (buf : List UInt8) :
    OnlyAt fd k (k.tcpPollSend fd buf).1 := by
  unfold tcpPollSend
  split
  · exact .refl fd k
  · split
    · exact .refl fd k
    · exact .modify k fd _

theorem tcpPollShutdownWrite_only (k : Kernel) (fd : Fd) :
    OnlyAt fd k (k.tcpPollShutdownWrite fd).1 := by
  unfold tcpPollShutdownWrite
  split
  · exact .refl fd k
  · split
    · exact .refl fd k
    · exact .modify k fd _

theorem tcpPollRecvVectored_only {lens : List Nat} {r : Poll (Except NetError (List UInt8))}
    (h : k.tcpPollRecvVectored fd lens = .ok (k', r)) : OnlyAt fd k k' := by
  unfold tcpPollRecvVectored at h
  split at h
  · cases h
    exact .refl fd k
  · split at h
    · cases h
      exact .refl fd k
    · dsimp only at h
      split at h
      · cases h
        exact .refl fd k
      · obtain ⟨loc, -, h⟩ := bind_eq_ok.mp h
        obtain ⟨hk, -⟩ := Prod.mk.inj (Except.ok.inj h)
        rw [← hk]
        split
        · exact OnlyAt.modify k fd _
        · exact OnlyAt.modify k fd _

theorem ensureBound_only {ty : SockType} {dst : IpAddr} {r : Except NetError BindKey}
    (h : k.ensureBound fd st ty dst = .ok (k', r)) : OnlyAt fd k k' := by
  unfold ensureBound at h
  split at h
  · cases h
    exact .refl fd k
  · unfold autoBind at h
    split at h
    · cases h
      exact .refl fd k
    · obtain ⟨⟨sockets, port⟩, hport, h⟩ := bind_eq_ok.mp h
      obtain ⟨⟨ports, hsockets⟩, -⟩ := (allocatePort_safe _ _ _).of_ok hport
      dsimp only at hsockets
      subst hsockets
      cases port with
      | none =>
        cases h
        exact .refl fd k
      | some port =>
        obtain ⟨_, -, h⟩ := bind_eq_ok.mp h
        cases h
        intro g hg
        rw [lookup_modifySocket, if_neg hg]
        rfl

theorem startConnect_only {peer : SocketAddr} (h : k.startConnect fd peer = .ok k') :
    OnlyAt fd k k' := by
  obtain ⟨src, -, h⟩ := bind_eq_ok.mp h
  obtain ⟨_, -, h⟩ := bind_eq_ok.mp h
  obtain ⟨sockets, hs, h⟩ := bind_eq_ok.mp h
  unfold SocketTable.insertConnection at hs
  split at hs
  · cases hs
  · cases hs
    cases h
    intro g hg
    show Kernel.lookup (Kernel.modifySocket _ fd _) g = _
    rw [lookup_modifySocket, if_neg hg]
    exact k.lookup_tcpIsn _ g

theorem udpSendTo_only {buf : List UInt8} {dst : SocketAddr} {r : Poll (Except NetError Nat)}
    (h : k.udpSendTo fd buf dst = .ok (k', r)) : OnlyAt fd k k' := by
  obtain ⟨st, -, h⟩ := bind_eq_ok.mp h
  split at h
  · cases h
    exact .refl fd k
  · split at h
    · cases h
      exact .refl fd k
    · obtain ⟨⟨k1, bound⟩, hb, h⟩ := bind_eq_ok.mp h
      cases bound with
      | error e =>
        cases h
        exact ensureBound_only hb
      | ok key =>
        cases h
        have hone := ensureBound_only hb
        exact hone

theorem udpRecvFrom_only (k : Kernel) (fd : Fd) (st : Socket) (len : Nat) :
    OnlyAt fd k (k.udpRecvFrom fd st len).1 := by
  unfold udpRecvFrom
  split
  · exact .refl fd k
  · exact .modify k fd _

theorem pollConnect_only {peer : SocketAddr} {r : Poll (Except NetError Unit)}
    (h : k.pollConnect fd peer = .ok (k', r)) : OnlyAt fd k k' := by
  unfold pollConnect at h
  split at h
  · cases h
    exact .refl fd k
  · split at h
    · cases h
      exact .refl fd k
    · split at h
      · obtain ⟨⟨k1, bound⟩, hb, h⟩ := bind_eq_ok.mp h
        cases bound with
        | error e =>
          cases h
          exact ensureBound_only hb
        | ok key =>
          cases h
          exact (ensureBound_only hb).trans (.modify k1 fd _)
      · obtain ⟨st, -, h⟩ := bind_eq_ok.mp h
        split at h
        · cases h
          exact .refl fd k
        · obtain ⟨⟨k1, bound⟩, hb, h⟩ := bind_eq_ok.mp h
          cases bound with
          | error e =>
            cases h
            exact ensureBound_only hb
          | ok key =>
            obtain ⟨k2, hk2, h⟩ := bind_eq_ok.mp h
            cases h
            exact (ensureBound_only hb).trans (startConnect_only hk2)
      · cases h

theorem listen_only {backlog : Nat} {r : Except NetError Unit}
    (h : k.listen fd backlog = .ok (k', r)) : OnlyAt fd k k' := by
  unfold listen at h
  split at h
  · cases h
    exact .refl fd k
  · split at h
    · cases h
    · split at h
      · cases h
      · cases h
        exact .modify k fd _

/-- **A call touches the socket it is about**; closing is another matter. -/
theorem syscall_only {c : Syscall} {r : Reply} (hfd : c.fd? = some fd) (hclose : ∀ g, c ≠ .close g)
    (h : k.syscall c = .ok (k', r)) : OnlyAt fd k k' := by
  cases c with
  | openSocket domain ty => cases hfd
  | bind addr ty => cases hfd
  | listen fd' backlog =>
    cases hfd
    obtain ⟨⟨k1, r1⟩, h1, h⟩ := bind_eq_ok.mp h
    cases h
    exact listen_only h1
  | connect fd' peer =>
    cases hfd
    obtain ⟨⟨k1, r1⟩, h1, h⟩ := bind_eq_ok.mp h
    cases h
    exact pollConnect_only h1
  | accept fd' =>
    cases hfd
    obtain ⟨⟨k1, r1⟩, h1, h⟩ := bind_eq_ok.mp h
    cases h
    unfold pollAccept at h1
    split at h1
    · cases h1
      exact .refl fd k
    · obtain ⟨l, -, h1⟩ := bind_eq_ok.mp h1
      split at h1
      · cases h1
        exact .refl fd k
      · obtain ⟨c, -, h1⟩ := bind_eq_ok.mp h1
        obtain ⟨t, -, h1⟩ := bind_eq_ok.mp h1
        cases h1
        exact .modify k fd _
  | send fd' buf =>
    cases hfd
    obtain ⟨⟨k1, r1⟩, h1, h⟩ := bind_eq_ok.mp h
    cases h
    unfold pollSend at h1
    split at h1
    · cases h1
      exact .refl fd k
    · split at h1
      · split at h1
        · cases h1
          exact .refl fd k
        · exact udpSendTo_only h1
      · obtain ⟨hk, -⟩ := Prod.mk.inj (Except.ok.inj h1)
        rw [← hk]
        exact tcpPollSend_only k fd buf
      · cases h1
  | sendTo fd' buf dst =>
    cases hfd
    obtain ⟨⟨k1, r1⟩, h1, h⟩ := bind_eq_ok.mp h
    cases h
    unfold pollSendTo at h1
    split at h1
    · cases h1
      exact .refl fd k
    · split at h1
      · cases h1
      · split at h1
        · cases h1
          exact .refl fd k
        · exact udpSendTo_only h1
  | recv fd' len =>
    cases hfd
    obtain ⟨⟨k1, r1⟩, h1, h⟩ := bind_eq_ok.mp h
    cases h
    unfold pollRecv at h1
    split at h1
    · cases h1
      exact .refl fd k
    · rename_i st hst
      have honly := udpRecvFrom_only k fd st len
      split at h1
      · split at h1 <;> rename_i heq <;> cases h1 <;> rw [heq] at honly <;> exact honly
      · exact tcpPollRecvVectored_only h1
      · cases h1
  | recvFrom fd' len =>
    cases hfd
    obtain ⟨⟨k1, r1⟩, h1, h⟩ := bind_eq_ok.mp h
    cases h
    unfold pollRecvFrom at h1
    split at h1
    · cases h1
      exact .refl fd k
    · rename_i st hst
      have honly := udpRecvFrom_only k fd st len
      split at h1
      · cases h1
      · split at h1 <;> rename_i heq <;> cases h1 <;> rw [heq] at honly <;> exact honly
  | tryRecvVectored fd' lens =>
    cases hfd
    obtain ⟨⟨k1, r1⟩, h1, h⟩ := bind_eq_ok.mp h
    cases h
    unfold tryRecvVectored at h1
    split at h1
    · cases h1
      exact .refl fd k
    · split at h1
      · cases h1
        exact .refl fd k
      · obtain ⟨⟨k2, r2⟩, h2, h1⟩ := bind_eq_ok.mp h1
        cases r2 <;> cases h1 <;> exact tcpPollRecvVectored_only h2
  | peek fd' len =>
    obtain ⟨r1, -, h⟩ := bind_eq_ok.mp h
    cases h
    exact .refl fd k
  | peekFrom fd' len =>
    obtain ⟨r1, -, h⟩ := bind_eq_ok.mp h
    cases h
    exact .refl fd k
  | shutdown fd' =>
    cases hfd
    obtain ⟨⟨k1, r1⟩, h1, h⟩ := bind_eq_ok.mp h
    cases h
    unfold pollShutdownWrite at h1
    split at h1
    · cases h1
      exact .refl fd k
    · split at h1
      · obtain ⟨hk, -⟩ := Prod.mk.inj (Except.ok.inj h1)
        rw [← hk]
        exact tcpPollShutdownWrite_only k fd
      · cases h1
  | close fd' => exact absurd rfl (hclose fd')
  | setOption fd' opt =>
    cases hfd
    obtain ⟨hk, -⟩ := Prod.mk.inj (Except.ok.inj h)
    rw [← hk]
    split
    · exact .refl fd k
    · exact .modify k fd _

/-- One socket changed that did not listen, and is no child in its handshake now. -/
theorem Keeps.of_only (h : OnlyAt fd k k') (hl : ∀ st, k.lookup fd = some st → st.listen = none)
    (hr : ∀ st, k'.lookup fd = some st → ¬ st.Received) : Keeps (fun g => g = fd) k k' := by
  refine ⟨fun g st l hst hl' => ?_, fun g st hst hty => ?_, fun g st hst hr' => ?_⟩
  · have hne : g ≠ fd := by
      rintro rfl
      rw [hl st hst] at hl'
      cases hl'
    exact ⟨st, l, (h g hne).trans hst, hl', rfl, fun c hc => Or.inr hc⟩
  · by_cases hg : g = fd
    · exact Or.inl hg
    · rw [h g hg] at hst
      by_cases hr' : st.Received
      · exact Or.inr (Or.inl hr')
      · exact Or.inr (Or.inr (Or.inr ⟨st, hst, hty, fun h => h, hr'⟩))
  · have hne : g ≠ fd := by
      rintro rfl
      exact hr st hst hr'
    rw [h g hne] at hst
    exact Or.inl ⟨st, hst, hr', rfl⟩

/-- **The socket of a handle changed**: it has its handle for a reason. -/
theorem Cared.of_only (hc : k.Cared own) (h : OnlyAt fd k k')
    (hl : ∀ st, k.lookup fd = some st → st.listen = none)
    (ht : k'.Tidy own' fun _ => True) (hown : own' fd ≠ none)
    (hother : ∀ g, g ≠ fd → own' g = own g) : k'.Cared own' := by
  refine hc.of_keeps (Keeps.of_only h hl fun st hst hr => ?_) (fun g hg ho => ?_)
    fun g st hg hst hty => ?_
  · obtain ⟨t, htcb, hs⟩ := hr
    exact hown (SocketTable.Tidy.of_received ht hst htcb hs).1
  · rw [hother g hg]
    exact ho
  · rw [hg]
    exact Or.inl hown

/-- A handle that does not accept has a socket that does not listen. -/
theorem Tidy.listen_of_own (h : k.Tidy own live) {handle : Handle} (hown : own fd = some handle)
    (hne : handle ≠ .listener) (hst : k.lookup fd = some st) : st.listen = none := by
  have hfit := h.socket fd st hst
  obtain ⟨-, hserves⟩ := hfit.serves handle hown
  cases handle with
  | listener => exact absurd rfl hne
  | connecting peer => exact hserves.2.2.1
  | stream =>
    obtain ⟨t, ht, -⟩ := hserves
    exact (hfit.tcb (by rw [ht]; exact Option.some_ne_none t)).2.2
  | udp =>
    by_contra hl
    have hty := (hfit.listen hl).1
    rw [hserves.1] at hty
    cases hty

/-! ## 6. Closing -/

theorem resetChild_lookup {c : Fd} (h : k.resetChild c = .ok k') (x : Fd) :
    k'.lookup x = if x = c then none else k.lookup x := by
  unfold resetChild at h
  split at h
  · rename_i hnone
    cases h
    split
    · rename_i hx
      rw [hx]
      exact hnone
    · rfl
  · split at h
    · cases h
      exact lookup_removeSocket k c x
    · obtain ⟨loc, -, h⟩ := bind_eq_ok.mp h
      cases h
      exact lookup_removeSocket _ c x

theorem resetChildren_lookup : ∀ {cs : List Fd} {k k' : Kernel}, cs.foldlM resetChild k = .ok k' →
    ∀ x, k'.lookup x = if x ∈ cs then none else k.lookup x
  | [], k, k', h, x => by
    cases h
    rfl
  | c :: cs, k, k', h, x => by
    obtain ⟨k1, h1, h⟩ := bind_eq_ok.mp h
    rw [resetChildren_lookup h x, resetChild_lookup h1 x]
    by_cases hx : x = c
    · simp [hx]
    · simp [hx]

theorem isUnspecified_unspecifiedLike (ip : IpAddr) : ip.unspecifiedLike.isUnspecified = true := by
  cases ip <;> rfl

/-- A child of the listener that is closing is found, unless it is in its queue. -/
theorem mem_handshakingOn {key gkey : BindKey} {ready : List Fd} {c : Fd}
    (hst : k.lookup c = some st) (hr : st.Received) (hb : st.bound = some key) (hne : c ≠ fd)
    (hq : c ∉ ready) (hport : gkey.localPort = key.localPort)
    (haddr : gkey.localAddr = key.localAddr ∨ gkey.localAddr = key.localAddr.unspecifiedLike) :
    c ∈ k.handshakingOn fd ready gkey.endpoint := by
  obtain ⟨t, ht, hs⟩ := hr
  refine List.mem_map.mpr ⟨(c, st), List.mem_filter.mpr ⟨IndexMap.mem_entries.mpr hst, ?_⟩, rfl⟩
  have hwild : (gkey.localAddr.isUnspecified || key.localAddr == gkey.localAddr) = true := by
    rcases haddr with h | h
    · simp [h]
    · rw [h, isUnspecified_unspecifiedLike]
      rfl
  simp [hne, hq, ht, hb, hs, BindKey.endpoint, hport]
  simpa using hwild

/-- **Closing a listener** takes every child along that it was the reason for. -/
theorem closeListener_cared (ht : k.Tidy own fun _ => True) (hc : k.Cared own) {l : ListenState}
    {gkey : BindKey} (hst : k.lookup fd = some st) (hl : st.listen = some l)
    (hb : st.bound = some gkey)
    (h : (l.ready ++ k.handshakingOn fd l.ready gkey.endpoint).foldlM resetChild k = .ok k') :
    (k'.removeSocket fd).Cared (dropHandle own fd) := by
  have hready : k.sockets.ready fd = l.ready := by
    rw [SocketTable.ready, show k.sockets.get fd = some st from hst, Option.bind_some, hl]
  have hlook : ∀ {x xst}, (k'.removeSocket fd).lookup x = some xst → x ≠ fd
      ∧ x ∉ l.ready ++ k.handshakingOn fd l.ready gkey.endpoint ∧ k.lookup x = some xst := by
    intro x xst hx
    rw [lookup_removeSocket] at hx
    split at hx
    · cases hx
    · rename_i hxf
      rw [resetChildren_lookup h] at hx
      split at hx
      · cases hx
      · rename_i hmem
        exact ⟨hxf, hmem, hx⟩
  -- the other listeners stay
  have hstay : ∀ {g gst gl}, g ≠ fd → k.lookup g = some gst → gst.listen = some gl →
      (k'.removeSocket fd).lookup g = some gst := by
    intro g gst gl hgf hg hgl
    have htcb : gst.tcb = none := by
      by_contra ht'
      rw [((ht.socket g gst hg).tcb ht').2.2] at hgl
      cases hgl
    have hmem : g ∉ l.ready ++ k.handshakingOn fd l.ready gkey.endpoint := by
      intro hmem
      rcases List.mem_append.mp hmem with hm | hm
      · rw [← hready] at hm
        obtain ⟨-, st', hst', -, t, ht', -⟩ := ht.waiting g ⟨fd, trivial, hm⟩
        cases hg.symm.trans hst'
        rw [htcb] at ht'
        cases ht'
      · obtain ⟨st', t, hst', ht', -⟩ := received_of_mem_handshakingOn hm
        cases hg.symm.trans hst'
        rw [htcb] at ht'
        cases ht'
    rw [lookup_removeSocket, if_neg hgf, resetChildren_lookup h, if_neg hmem]
    exact hg
  refine ⟨fun x xst hx hty => ?_, fun x xst hx hr => ?_⟩
  · obtain ⟨hxf, hmem, hx0⟩ := hlook hx
    rcases hc.accounted x xst hx0 hty with ho | hcl | hr | ⟨g, hg⟩
    · exact Or.inl (by rw [dropHandle_of_ne hxf]; exact ho)
    · exact Or.inr (Or.inl hcl)
    · exact Or.inr (Or.inr (Or.inl hr))
    · have hgf : g ≠ fd := by
        rintro rfl
        rw [hready] at hg
        exact hmem (List.mem_append_left _ hg)
      obtain ⟨gst, gl, hgst, hgl, hcl⟩ := SocketTable.mem_ready.mp hg
      exact Or.inr (Or.inr (Or.inr ⟨g, SocketTable.mem_ready.mpr
        ⟨gst, gl, hstay hgf hgst hgl, hgl, hcl⟩⟩))
  · obtain ⟨hxf, hmem, hx0⟩ := hlook hx
    obtain ⟨key, g, hkey, gst, gl, gkey', hgst, hgl, hgb, h1, h2, h3⟩ := hc.hosted x xst hx0 hr
    have hgf : g ≠ fd := by
      rintro rfl
      cases hst.symm.trans hgst
      cases hb.symm.trans hgb
      refine hmem (List.mem_append_right _ (mem_handshakingOn hx0 hr hkey hxf (fun hq => ?_) h2 h3))
      exact hmem (List.mem_append_left _ hq)
    exact ⟨key, g, hkey, gst, gl, gkey', hstay hgf hgst hgl, hgl, hgb, h1, h2, h3⟩

/-- **A descriptor is closed.** -/
theorem close_cared (ht : k.Tidy own fun _ => True) (hc : k.Cared own) {handle : Handle}
    (hown : own fd = some handle) :
    Safe (fun k' => k'.Cared (dropHandle own fd)) (k.close fd) := by
  have hsafe := close_safe ht hown
  refine hsafe.returning fun k' hk' => ?_
  have ht' : k'.Tidy (dropHandle own fd) fun _ => True := hsafe.of_ok hk'
  obtain ⟨st, hst⟩ := ht.lookup_of_own hown
  -- the socket goes and nothing else
  have hgone : st.listen = none → (k.removeSocket fd).Cared (dropHandle own fd) := by
    intro hl
    refine hc.of_keeps (Keeps.remove fun st' hst' => ?_ : Keeps (fun g => g = fd) k _)
      (fun g hg ho => ?_) fun g gst hg hgst => ?_
    · cases hst.symm.trans hst'
      exact hl
    · rw [dropHandle_of_ne hg]
      exact ho
    · rw [lookup_removeSocket, if_pos hg] at hgst
      cases hgst
  obtain ⟨⟨k1, reap⟩, h1, hk'⟩ := bind_eq_ok.mp hk'
  unfold onClose at h1
  rw [hst] at h1
  dsimp only at h1
  split at h1
  · rename_i l hty htcb hl
    obtain ⟨loc, hloc, h1⟩ := bind_eq_ok.mp h1
    obtain ⟨key, hkey, hloc⟩ := bind_eq_ok.mp hloc
    obtain ⟨k2, h2, h3⟩ := bind_eq_ok.mp h1
    obtain rfl : key.endpoint = loc := Except.ok.inj hloc
    obtain ⟨rfl, rfl⟩ := Prod.mk.inj (Except.ok.inj h3)
    cases hk'
    exact closeListener_cared ht hc hst hl (expect_eq_ok.mp hkey) h2
  · rename_i t hty htcb
    have hl : st.listen = none :=
      ((ht.socket fd st hst).tcb (by rw [htcb]; exact Option.some_ne_none t)).2.2
    split at h1
    · split at h1
      · obtain ⟨loc, -, h1⟩ := bind_eq_ok.mp h1
        cases h1
        cases hk'
        exact (hgone hl).kept (Keeps.of_sockets rfl)
      · -- the connection goes on by itself
        cases h1
        cases hk'
        have honly := OnlyAt.modify k fd fun st => { st with
          fdClosed := true
          tcb := some (if t.wrClosed then t else t.shutWrite) }
        have hclosed : ∀ st', (k.modifySocket fd fun st => { st with
            fdClosed := true
            tcb := some (if t.wrClosed then t else t.shutWrite) }).lookup fd = some st' →
            st'.fdClosed = true := by
          intro st' hst'
          rw [lookup_modifySocket, if_pos rfl, hst] at hst'
          cases hst'
          rfl
        refine hc.of_keeps (Keeps.of_only honly (fun st' hst' => ?_) fun st' hst' hr => ?_)
          (fun g hg ho => ?_) fun g gst hg hgst _ => ?_
        · cases hst.symm.trans hst'
          exact hl
        · obtain ⟨t', ht1, hs⟩ := hr
          have := (ht'.socket fd st' hst').received t' ht1 hs
          rw [hclosed st' hst'] at this
          cases this
        · rw [dropHandle_of_ne hg]
          exact ho
        · rw [hg] at hgst
          exact Or.inr (Or.inl (hclosed gst hgst))
    · cases h1
      cases hk'
      exact hgone hl
  · rename_i hno2 hno1
    cases h1
    cases hk'
    refine hgone ?_
    by_contra hl
    have hty := ((ht.socket fd st hst).listen hl).1
    obtain ⟨l, hl⟩ := Option.ne_none_iff_exists'.mp hl
    cases htcb : st.tcb with
    | none => exact hno1 l hty htcb hl
    | some t => exact hno2 t hty htcb

/-! ## 7. The steps of a host -/

theorem bindAt_only {key : BindKey} {r : Except NetError Fd} (h : k.bindAt key = (k', r)) :
    (∀ fd, r = .ok fd → fd = k.sockets.nextId ∧ OnlyAt fd k k') ∧ ∀ e, r = .error e → k' = k := by
  unfold bindAt at h
  dsimp only at h
  split at h
  · cases h
    refine ⟨fun fd hfd => ?_, fun _ _ => rfl⟩
    cases hfd
  · cases h
    refine ⟨fun fd hfd => ?_, fun e he => ?_⟩
    · cases hfd
      refine ⟨rfl, fun g hg => ?_⟩
      rw [lookup_modifySocket]
      exact (if_neg hg).trans ((SocketTable.get_insert k.sockets _ g).trans (if_neg hg))
    · cases he

/-- Binding opens one socket, or leaves the sockets as they are. -/
theorem bind_only {addr : SocketAddr} {ty : SockType} {r : Except NetError Fd}
    (h : k.bind addr ty = .ok (k', r)) :
    (∀ fd, r = .ok fd → fd = k.sockets.nextId ∧ OnlyAt fd k k')
      ∧ ∀ e, r = .error e → ∀ g, k'.lookup g = k.lookup g := by
  unfold bind at h
  dsimp only at h
  split at h
  · cases h
    refine ⟨fun fd hfd => ?_, fun _ _ _ => rfl⟩
    cases hfd
  · split at h
    · obtain ⟨⟨sockets, port⟩, hport, h⟩ := bind_eq_ok.mp h
      obtain ⟨⟨ports, hsockets⟩, -⟩ := (allocatePort_safe _ _ _).of_ok hport
      dsimp only at hsockets
      subst hsockets
      cases port with
      | none =>
        cases h
        refine ⟨fun fd hfd => ?_, fun _ _ _ => rfl⟩
        cases hfd
      | some port =>
        obtain ⟨hok, herr⟩ := bindAt_only (Except.ok.inj h)
        exact ⟨hok, fun e he g => by rw [herr e he]; rfl⟩
    · obtain ⟨hok, herr⟩ := bindAt_only (Except.ok.inj h)
      exact ⟨hok, fun e he g => by rw [herr e he]⟩

theorem setOption_keeps (k : Kernel) (fd : Fd) (opt : SocketOption) :
    Keeps ex k (k.setOption fd opt).1 := by
  unfold setOption
  split
  · exact Keeps.refl ex k
  · rename_i st hst
    cases opt <;> exact Keeps.modify hst rfl rfl (fun h => h) (fun _ => rfl) Iff.rfl

/-- A child leaves the queue it is at the head of. -/
theorem Keeps.pop (hst : k.lookup fd = some st) {l : ListenState} (hl : st.listen = some l)
    {child : Fd} {rest : List Fd} (hready : l.ready = child :: rest) :
    Keeps (fun g => g = child) k
      (k.modifySocket fd fun st => { st with listen := some { l with ready := rest } }) := by
  refine ⟨fun g st' l' hg hl' => ?_, fun g st' hg hty => ?_, fun g st' hg hr => ?_⟩
  · rw [lookup_modifySocket]
    split
    · rename_i hgf
      subst hgf
      cases hst.symm.trans hg
      cases hl.symm.trans hl'
      refine ⟨{ st with listen := some { l with ready := rest } }, { l with ready := rest },
        by rw [hst]; rfl, rfl, rfl, fun c hc => ?_⟩
      rw [hready] at hc
      exact List.mem_cons.mp hc
    · exact ⟨st', l', hg, hl', rfl, fun c hc => Or.inr hc⟩
  · by_cases hr : st'.Received
    · exact Or.inr (Or.inl hr)
    · rw [lookup_modifySocket] at hg
      split at hg
      · rename_i hgf
        rw [hst] at hg
        cases hg
        exact Or.inr (Or.inr (Or.inr ⟨st, hgf ▸ hst, hty, fun h => h, hr⟩))
      · exact Or.inr (Or.inr (Or.inr ⟨st', hg, hty, fun h => h, hr⟩))
  · rw [lookup_modifySocket] at hg
    split at hg
    · rename_i hgf
      rw [hst] at hg
      cases hg
      exact Or.inl ⟨st, hgf ▸ hst, hr, rfl⟩
    · exact Or.inl ⟨st', hg, hr, rfl⟩

/-- **Accepting** takes the first child out of the queue, or does nothing. -/
theorem pollAccept_cases {r : Poll (Except NetError (Fd × SocketAddr))}
    (h : k.pollAccept fd = .ok (k', r)) :
    (k' = k ∧ ∀ child peer, r ≠ .ready (.ok (child, peer))) ∨
    ∃ st l child rest peer, k.lookup fd = some st ∧ st.listen = some l ∧ l.ready = child :: rest
      ∧ r = .ready (.ok (child, peer))
      ∧ k' = k.modifySocket fd fun st => { st with listen := some { l with ready := rest } } := by
  unfold pollAccept at h
  split at h
  · cases h
    exact Or.inl ⟨rfl, nofun⟩
  · rename_i st hst
    obtain ⟨l, hl, h⟩ := bind_eq_ok.mp h
    split at h
    · cases h
      exact Or.inl ⟨rfl, nofun⟩
    · rename_i child rest hready
      obtain ⟨c, -, h⟩ := bind_eq_ok.mp h
      obtain ⟨t, -, h⟩ := bind_eq_ok.mp h
      cases h
      exact Or.inr ⟨st, l, child, rest, t.peer, hst, expect_eq_ok.mp hl, hready, rfl, rfl⟩

end Kernel

namespace Host

variable {h h' : Host}

/-- The invariant, with the handles the application holds. -/
def Cared (h : Host) : Prop := h.kernel.Cared h.handles.get?

theorem new_lookup (cfg : KernelConfig) (addrs : List IpAddr) (fd : Fd) :
    (Host.new cfg addrs).kernel.lookup fd = none := by
  rw [Kernel.lookup, new_sockets]
  rfl

theorem new_cared (cfg : KernelConfig) (addrs : List IpAddr) : (Host.new cfg addrs).Cared := by
  refine ⟨fun fd st hst => ?_, fun fd st hst => ?_⟩
  · rw [new_lookup] at hst
    cases hst
  · rw [new_lookup] at hst
    cases hst

/-- The application gets a socket of its own. -/
theorem cared_of_fresh (hh : h.Tidy) (hc : h.Cared) {k : Kernel} {handle : Handle}
    (honly : Kernel.OnlyAt h.kernel.sockets.nextId h.kernel k)
    (ht : Host.Tidy ⟨k, h.handles.insert h.kernel.sockets.nextId handle⟩) :
    Host.Cared ⟨k, h.handles.insert h.kernel.sockets.nextId handle⟩ := by
  refine Kernel.Cared.of_only hc honly (fun st hst => ?_) ht ?_ fun g hg => handles_insert hg
  · have hnone := (SocketTable.Tidy.next hh).1
    cases hnone.symm.trans hst
  · rw [handles_insert_self]
    exact Option.some_ne_none handle

theorem listen_cared (hh : h.Tidy) (hc : h.Cared) {addr : SocketAddr} {r : Except NetError Fd}
    (hs : h.listen addr = .ok (h', r)) : h'.Cared := by
  have ht' : h'.Tidy := (listen_safe hh addr).of_ok hs
  obtain ⟨⟨k1, r1⟩, h1, hs⟩ := bind_eq_ok.mp hs
  have hone := Kernel.bind_only h1
  cases r1 with
  | error e =>
    cases hs
    exact Kernel.Cared.kept hc (Kernel.Keeps.of_lookup (hone.2 e rfl))
  | ok fd =>
    obtain ⟨hfd, honly⟩ := hone.1 fd rfl
    subst hfd
    obtain ⟨-, st, hst, hb⟩ := ((Kernel.bind_safe hh addr .stream).of_ok h1).2 _ rfl
    obtain ⟨⟨k2, r2⟩, h2, hs⟩ := bind_eq_ok.mp hs
    have hlisten := (Kernel.listen_safe ((Kernel.bind_safe hh addr .stream).of_ok h1).1 hst hb
      (show ∀ g, g ≠ h.kernel.sockets.nextId → (h.handles.insert h.kernel.sockets.nextId
        .listener).get? g = h.handles.get? g from fun g hg => handles_insert hg)
      handles_insert_self _).of_ok h2
    obtain rfl : r2 = .ok () := hlisten.1
    cases hs
    exact cared_of_fresh hh hc (honly.trans (Kernel.listen_only h2)) ht'

theorem bindUdp_cared (hh : h.Tidy) (hc : h.Cared) {addr : SocketAddr} {r : Except NetError Fd}
    (hs : h.bindUdp addr = .ok (h', r)) : h'.Cared := by
  have ht' : h'.Tidy := (bindUdp_safe hh addr).of_ok hs
  obtain ⟨⟨k1, r1⟩, h1, hs⟩ := bind_eq_ok.mp hs
  have hone := Kernel.bind_only h1
  cases r1 with
  | error e =>
    cases hs
    exact Kernel.Cared.kept hc (Kernel.Keeps.of_lookup (hone.2 e rfl))
  | ok fd =>
    obtain ⟨rfl, honly⟩ := hone.1 fd rfl
    cases hs
    exact cared_of_fresh hh hc honly ht'

theorem connect_cared (hh : h.Tidy) (hc : h.Cared) (peer : SocketAddr) :
    (h.connect peer).1.Cared := by
  refine cared_of_fresh hh hc (fun g hg => ?_) (connect_tidy hh peer)
  exact (SocketTable.get_insert h.kernel.sockets _ g).trans (if_neg hg)

/-- **What a call does to a host**: nothing; something to the one socket it is about, which does not
listen; an option is set; the first child of a queue is accepted; or a descriptor is closed, for
`TcpStream::connect` after its last poll. -/
inductive CallCase (h h' : Host) : Prop
  | idle (heq : h' = h)
  | handled {fd : Fd} {handle : Handle} (hown : h.handles.get? fd = some handle)
      (hne : handle ≠ .listener) (honly : Kernel.OnlyAt fd h.kernel h'.kernel)
      (hsame : h'.handles = h.handles ∨ h'.handles = h.handles.insert fd .stream)
  | option (fd : Fd) (opt : Kernel.SocketOption)
      (heq : h' = { h with kernel := (h.kernel.setOption fd opt).1 })
  | accepted {fd : Fd} {st : Socket} {l : ListenState} {child : Fd} {rest : List Fd}
      (hst : h.kernel.lookup fd = some st) (hl : st.listen = some l)
      (hready : l.ready = child :: rest)
      (heq : h' = ⟨h.kernel.modifySocket fd fun st =>
        { st with listen := some { l with ready := rest } }, h.handles.insert child .stream⟩)
  | closed {fd : Fd} {handle : Handle} {k : Kernel} (hown : h.handles.get? fd = some handle)
      (hk : k = h.kernel ∨ (handle ≠ .listener ∧ Kernel.OnlyAt fd h.kernel k))
      (ht : Host.Tidy ⟨k, h.handles⟩) (hclose : k.close fd = .ok h'.kernel)
      (hsame : h'.handles = h.handles.swapRemove fd)

/-- A call by the one who holds the descriptor. -/
theorem settle_cases (hh : h.Tidy) {c : Syscall} {fd : Fd} {handle : Handle} {k : Kernel} {r : Reply}
    (hfd : c.fd? = some fd) (hown : h.handles.get? fd = some handle)
    (hperm : handle.permits c = true) (hk : h.kernel.syscall c = .ok (k, r))
    (hs : h.settle handle k c r = .ok h') : CallCase h h' := by
  -- most calls leave the handles alone
  have hplain : (∀ g, c ≠ .close g) → handle ≠ .listener → h' = { h with kernel := k } →
      CallCase h h' := by
    rintro hclose hne rfl
    exact .handled hown hne (Kernel.syscall_only hfd hclose hk) (Or.inl rfl)
  cases c with
  | openSocket domain ty => cases hfd
  | bind addr ty => cases hfd
  | listen fd backlog => cases hperm
  | connect fd' peer =>
    cases hfd
    have hne : handle ≠ .listener := by
      rintro rfl
      cases hperm
    have honly := Kernel.syscall_only rfl (fun g hg => by cases hg) hk
    simp only [Handle.permits, Bool.or_eq_true, beq_iff_eq] at hperm
    obtain ⟨⟨k1, r1⟩, h1, hk⟩ := bind_eq_ok.mp hk
    have ht1 := ((Kernel.pollConnect_safe hh hown hperm).of_ok h1).1
    cases hk
    cases r1 with
    | pending =>
      cases hs
      exact .handled hown hne honly (Or.inl rfl)
    | ready r1 =>
      rcases hperm with rfl | rfl
      · cases hs
        exact .handled hown hne honly (Or.inl rfl)
      · cases r1 with
        | ok u =>
          cases hs
          exact .handled hown hne honly (Or.inr rfl)
        | error e =>
          obtain ⟨k2, h2, hs⟩ := bind_eq_ok.mp hs
          cases hs
          exact .closed hown (Or.inr ⟨hne, honly⟩) ht1 h2 rfl
  | accept fd' =>
    cases hfd
    obtain ⟨⟨k1, r1⟩, h1, hk⟩ := bind_eq_ok.mp hk
    cases hk
    rcases Kernel.pollAccept_cases h1 with
      ⟨rfl, hno⟩ | ⟨st, l, child, rest, peer, hst, hl, hready, rfl, rfl⟩
    · refine .idle ?_
      cases r1 with
      | pending => exact (Except.ok.inj hs).symm
      | ready r1 =>
        cases r1 with
        | error e => exact (Except.ok.inj hs).symm
        | ok r1 => exact absurd rfl (hno r1.1 r1.2)
    · cases hs
      exact .accepted hst hl hready rfl
  | close fd' =>
    cases hfd
    obtain ⟨k1, h1, hk⟩ := bind_eq_ok.mp hk
    cases hk
    cases hs
    exact .closed hown (Or.inl rfl) hh h1 rfl
  | setOption fd' opt =>
    obtain ⟨hk, -⟩ := Prod.mk.inj (Except.ok.inj hk)
    cases hs
    subst hk
    exact .option fd' opt rfl
  | send | sendTo | recv | recvFrom | tryRecvVectored | peek | peekFrom | shutdown =>
    refine hplain (fun g hg => by cases hg) (fun hl => ?_) (Except.ok.inj hs).symm
    rw [hl] at hperm
    cases hperm

theorem call_cases (hh : h.Tidy) {c : Syscall} {r : Reply} (hs : h.call c = .ok (h', r)) :
    CallCase h h' := by
  unfold call at hs
  split at hs
  · cases hs
    exact .idle rfl
  · rename_i handle hhandle
    obtain ⟨fd, hfd, hown⟩ := Option.bind_eq_some_iff.mp hhandle
    split at hs
    · rename_i hperm
      obtain ⟨⟨k, r1⟩, hk, hs⟩ := bind_eq_ok.mp hs
      obtain ⟨h1, h1s, hs⟩ := bind_eq_ok.mp hs
      cases hs
      exact settle_cases hh hfd hown hperm hk h1s
    · cases hs
      exact .idle rfl

/-- A call that takes no handle away and changes nothing but the socket it is about. -/
theorem cared_of_call (hh : h.Tidy) (hc : h.Cared) {fd : Fd} {handle : Handle}
    (hown : h.handles.get? fd = some handle) (hne : handle ≠ .listener)
    (honly : Kernel.OnlyAt fd h.kernel h'.kernel) (ht : h'.Tidy)
    (hsame : h'.handles = h.handles ∨ h'.handles = h.handles.insert fd .stream) : h'.Cared := by
  have hl : ∀ st, h.kernel.lookup fd = some st → st.listen = none :=
    fun st hst => Kernel.Tidy.listen_of_own hh hown hne hst
  obtain ⟨k, handles⟩ := h'
  rcases hsame with rfl | rfl
  · refine Kernel.Cared.of_only hc honly hl ht ?_ fun _ _ => rfl
    rw [hown]
    exact Option.some_ne_none handle
  · refine Kernel.Cared.of_only hc honly hl ht ?_ fun g hg => handles_insert hg
    rw [handles_insert_self]
    exact Option.some_ne_none Handle.stream

theorem call_cared (hh : h.Tidy) (hc : h.Cared) {c : Syscall} {r : Reply}
    (hs : h.call c = .ok (h', r)) : h'.Cared := by
  have ht' : h'.Tidy := (call_safe hh c).of_ok hs
  cases call_cases hh hs with
  | idle heq =>
    rw [heq]
    exact hc
  | handled hown hne honly hsame => exact cared_of_call hh hc hown hne honly ht' hsame
  | option fd opt heq =>
    rw [heq]
    exact Kernel.Cared.kept hc (Kernel.setOption_keeps h.kernel fd opt)
  | @accepted fd st l child rest hst hl hready heq =>
    rw [heq]
    -- whoever accepts the child holds it
    refine Kernel.Cared.of_keeps hc (Kernel.Keeps.pop hst hl hready) (fun g hg ho => ?_)
      fun g st hg hst hty => Or.inl ?_
    · rw [handles_insert hg]
      exact ho
    · rw [hg, handles_insert_self]
      exact Option.some_ne_none Handle.stream
  | @closed fd handle k hown hk ht hclose hsame =>
    have hc1 : Host.Cared ⟨k, h.handles⟩ := by
      rcases hk with rfl | ⟨hne, honly⟩
      · exact hc
      · exact cared_of_call hh hc hown hne honly ht (Or.inl rfl)
    show Kernel.Cared _ h'.kernel
    rw [hsame, handles_swapRemove]
    exact (Kernel.close_cared ht hc1 hown).of_ok hclose

/-! ## 8. Runs -/

/-- Does this step leave every child in its handshake alone?  It may not bring a RST for one, nor
give one up for want of an answer. -/
def spares (h : Host) : ShimOp → Bool
  | .deliver pkt => !h.kernel.resetsChild pkt
  | .egress fuel => h.kernel.egressSpares fuel
  | .listen _ | .connect _ | .bindUdp _ | .call _ => true

/-- Does every step of a run? -/
def runSpares (h : Host) : List ShimOp → Bool
  | [] => true
  | op :: ops => h.spares op && match h.step op with
    | .ok (h, _, _) => runSpares h ops
    | .error _ => true

/-- **A step that spares the children** leaves no socket without a reason. -/
theorem step_cared (hh : h.Tidy) (hc : h.Cared) {op : ShimOp} (hs : h.spares op = true) {r : Reply}
    {out : List Packet} (hstep : h.step op = .ok (h', r, out)) : h'.Cared := by
  cases op with
  | listen addr =>
    obtain ⟨⟨h1, r1⟩, h1s, hstep⟩ := bind_eq_ok.mp hstep
    cases hstep
    exact listen_cared hh hc h1s
  | connect peer =>
    cases hstep
    exact connect_cared hh hc peer
  | bindUdp addr =>
    obtain ⟨⟨h1, r1⟩, h1s, hstep⟩ := bind_eq_ok.mp hstep
    cases hstep
    exact bindUdp_cared hh hc h1s
  | call c =>
    obtain ⟨⟨h1, r1⟩, h1s, hstep⟩ := bind_eq_ok.mp hstep
    cases hstep
    exact call_cared hh hc h1s
  | deliver pkt =>
    obtain ⟨k1, h1s, hstep⟩ := bind_eq_ok.mp hstep
    cases hstep
    have hspare : h.kernel.resetsChild pkt = false := Bool.not_eq_true' _ |>.mp hs
    exact Kernel.Cared.kept hc ((Kernel.deliver_keeps hh hc hspare).of_ok h1s)
  | egress fuel =>
    obtain ⟨⟨k1, out1⟩, h1s, hstep⟩ := bind_eq_ok.mp hstep
    cases hstep
    exact ((Kernel.egress_cared hh hc hs).of_ok h1s).1

theorem run_cared : ∀ {ops : List ShimOp} {h h' : Host}, h.Tidy → h.Cared →
    h.runSpares ops = true → h.run ops = .ok h' → h'.Tidy ∧ h'.Cared
  | [], h, h', hh, hc, _, hrun => by
    cases hrun
    exact ⟨hh, hc⟩
  | op :: ops, h, h', hh, hc, hs, hrun => by
    obtain ⟨⟨h1, r, out⟩, h1s, hrun⟩ := bind_eq_ok.mp hrun
    rw [runSpares, h1s, Bool.and_eq_true] at hs
    exact run_cared ((step_safe hh op).of_ok h1s) (step_cared hh hc hs.1 h1s) hs.2 hrun

theorem run_append {ops ops' : List ShimOp} : ∀ {h : Host},
    h.run (ops ++ ops') = (h.run ops).bind fun h => h.run ops' := by
  induction ops with
  | nil => exact fun {h} => rfl
  | cons op ops ih =>
    intro h
    rw [List.cons_append, run, run]
    cases h.step op with
    | error e => rfl
    | ok r => exact ih

theorem runSpares_append {ops ops' : List ShimOp} : ∀ {h h' : Host}, h.run ops = .ok h' →
    h.runSpares (ops ++ ops') = (h.runSpares ops && h'.runSpares ops') := by
  induction ops with
  | nil =>
    intro h h' hrun
    cases hrun
    rfl
  | cons op ops ih =>
    intro h h' hrun
    obtain ⟨⟨h1, r, out⟩, h1s, hrun⟩ := bind_eq_ok.mp hrun
    rw [List.cons_append, runSpares, runSpares, h1s]
    dsimp only
    rw [ih hrun, Bool.and_assoc]

/-- **No socket is lost** in a run that never resets or gives up a child in its handshake: just
after an egress every stream socket has its reason to be there. -/
theorem no_orphans (cfg : KernelConfig) (addrs : List IpAddr) (ops : List ShimOp) (fuel : Nat)
    (h : Host) (hs : (Host.new cfg addrs).runSpares (ops ++ [.egress fuel]) = true)
    (hrun : (Host.new cfg addrs).run (ops ++ [.egress fuel]) = .ok h) : h.NoOrphans := by
  rw [run_append] at hrun
  obtain ⟨h1, h1s, hrun⟩ := bind_eq_ok.mp hrun
  rw [runSpares_append h1s, Bool.and_eq_true] at hs
  obtain ⟨ht1, hc1⟩ := run_cared (new_tidy cfg addrs) (new_cared cfg addrs) hs.1 h1s
  obtain ⟨⟨h2, r, out⟩, h2s, hrun⟩ := bind_eq_ok.mp hrun
  cases hrun
  obtain ⟨⟨k, out'⟩, hk, h2s⟩ := bind_eq_ok.mp h2s
  cases h2s
  rw [runSpares, Bool.and_eq_true] at hs
  obtain ⟨hc, hdone⟩ := (Kernel.egress_cared ht1 hc1 hs.2.1).of_ok hk
  intro fd st hst hty
  rcases hc.accounted fd st hst hty with ho | hcl | hr | hq
  · exact Or.inl ho
  · exact Or.inr (Or.inr (Or.inr ⟨hcl, hdone fd st hst hcl⟩))
  · exact Or.inr (Or.inl hr)
  · exact Or.inr (Or.inr (Or.inl hq))

/-- With the child of `queuedOps` waiting, nothing is lost. -/
theorem no_orphans_queued :
    ∃ h, (Host.new .default [.v4 0x0A000001]).run (queuedOps ++ [.egress 3]) = .ok h
      ∧ h.kernel.sockets.ready 1 = [2] ∧ h.NoOrphans := by
  have hrun : ((Host.new .default [.v4 0x0A000001]).run (queuedOps ++ [.egress 3])).toOption.map
      (fun h => h.kernel.sockets.ready 1) = some [2] := by
    decide +kernel
  obtain ⟨h, hh, hready⟩ := Option.map_eq_some_iff.mp hrun
  have hok := toOption_eq_some.mp hh
  exact ⟨h, hok, hready, no_orphans .default _ queuedOps 3 h (by decide +kernel) hok⟩

/-- A child whose peer resets it in its handshake. -/
def abortedOps : List ShimOp :=
  let server : IpAddr := .v4 0x0A000001
  let client : IpAddr := .v4 0x0A000002
  let arrive (s : TcpSegment) : ShimOp := .deliver ⟨client, server, 64, .tcp s⟩
  [.listen ⟨.v4 0, 80⟩, arrive ⟨1000, 80, 5, 0, { syn := true }, 100, []⟩, .egress 3,
    arrive ⟨1000, 80, 6, 0, { rst := true }, 0, []⟩]

/-- The next attempt of the same peer, from the same port. -/
def retrySyn : ShimOp :=
  .deliver ⟨.v4 0x0A000002, .v4 0x0A000001, 64, .tcp ⟨1000, 80, 9, 0, { syn := true }, 100, []⟩⟩

/-- **The child is lost**: closed, and held by nobody; and its peer's next SYN is not answered. -/
theorem aborted_child_is_lost :
    (¬ ∀ cfg addrs ops fuel h, (Host.new cfg addrs).run (ops ++ [.egress fuel]) = .ok h →
      h.NoOrphans) ∧
    ((Host.new .default [.v4 0x0A000001]).run (abortedOps ++ [.egress 3, retrySyn])).toOption.map
      (·.kernel.outbound) = some [] := by
  refine ⟨fun hall => ?_, by decide +kernel⟩
  have hrun : ((Host.new .default [.v4 0x0A000001]).run (abortedOps ++ [.egress 3])).toOption.map
      (fun h => ((h.kernel.lookup 2).map (fun st => (st.ty, st.fdClosed, st.tcb.map (·.state))),
        h.handles.get? 2, h.kernel.sockets.sockets.entries.any fun e => e.2.listen.any
          fun l => l.ready.contains 2)) = some (some (.stream, false, some .closed), none, false) := by
    decide +kernel
  obtain ⟨h, hh, hend⟩ := Option.map_eq_some_iff.mp hrun
  obtain ⟨hst, hend⟩ := Prod.mk.inj hend
  obtain ⟨hown, hqueues⟩ := Prod.mk.inj hend
  obtain ⟨st, hst, hfields⟩ := Option.map_eq_some_iff.mp hst
  obtain ⟨hty, hfields⟩ := Prod.mk.inj hfields
  obtain ⟨hopen, hstate⟩ := Prod.mk.inj hfields
  rcases hall _ _ _ _ h (toOption_eq_some.mp hh) 2 st hst hty with ho | ⟨t, ht, hs⟩ | ⟨g, hg⟩ | ⟨hcl, -⟩
  · exact ho hown
  · rw [ht, Option.map_some, hs] at hstate
    cases hstate
  · obtain ⟨gst, l, hgst, hl, hmem⟩ := SocketTable.mem_ready.mp hg
    rw [List.any_eq_false] at hqueues
    refine hqueues (g, gst) (IndexMap.mem_entries.mpr hgst) ?_
    rw [hl, Option.any_some]
    exact List.contains_iff_mem.mpr hmem
  · rw [hopen] at hcl
    cases hcl

end Host

end Turmoil.Net
