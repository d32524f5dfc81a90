/-
# Listeners and their children

A child in its handshake is not linked to the listener it came from.  `find_listener` says whose it
is, by its local address: the listener at that address, or at the wildcard of its family.  So two
listeners must never answer for one address, and they do not (`Kernel.Exclusive`): `bind` refuses an
address that is taken, and a wildcard next to anything on its port.

Closing a listener finds its children in another way, by comparing ports and addresses, and that
comparison leaves the family out: a listener on `0.0.0.0` takes along the children of the listener on
`[::]` with the same port.  `closes_its_own_iff` says that this is the only difference.

`Calm` is what nearly every step does to the listeners: nobody begins to listen, and no listener has
more to hold afterwards, be it in its queue or in a handshake.  The exceptions are the SYN that
brings a new child and `TcpListener::bind`.
-/
import Turmoil.Net.Orphans

namespace Turmoil.Net

namespace Kernel

/-! ## 1. What a listener has to hold -/

/-- A child in its handshake, and a listener that answers for its address. -/
def ChildOf (k : Kernel) (g c : Fd) : Prop :=
  ∃ st key, k.lookup c = some st ∧ st.Received ∧ st.bound = some key
    ∧ k.ListensAt key.endpoint g

/-- A listener has at most `n` children, in its queue and in their handshakes together. -/
def Load (k : Kernel) (g : Fd) (n : Nat) : Prop :=
  ∀ cs : List Fd, cs.Nodup → (∀ c ∈ cs, k.ChildOf g c) → (k.sockets.ready g).length + cs.length ≤ n

/-- Nobody begins to listen. -/
def SameListeners (k k' : Kernel) : Prop :=
  ∀ g st' l', k'.lookup g = some st' → st'.listen = some l' →
    ∃ st l, k.lookup g = some st ∧ st.listen = some l ∧ st'.bound = st.bound
      ∧ l'.backlog = l.backlog

/-- Nobody begins to listen, and no listener gets more to hold. -/
structure Calm (k k' : Kernel) : Prop where
  same : SameListeners k k'
  load : ∀ g n, k.Load g n → k'.Load g n

variable {own own' : Fd → Option Handle} {live : Fd → Prop} {k k' k'' : Kernel} {fd g : Fd}
  {st : Socket} {t t' : Tcb} {loc rem : SocketAddr} {s : TcpSegment}

theorem SameListeners.trans (h : SameListeners k k') (h' : SameListeners k' k'') :
    SameListeners k k'' := by
  intro g st l hst hl
  obtain ⟨st1, l1, hst1, hl1, hb1, hn1⟩ := h' g st l hst hl
  obtain ⟨st0, l0, hst0, hl0, hb0, hn0⟩ := h g st1 l1 hst1 hl1
  exact ⟨st0, l0, hst0, hl0, hb1.trans hb0, hn1.trans hn0⟩

theorem SameListeners.listensAt (h : SameListeners k k') (hg : k'.ListensAt loc g) :
    k.ListensAt loc g := by
  obtain ⟨st, l, key, hst, hl, hb, hrest⟩ := hg
  obtain ⟨st0, l0, hst0, hl0, hb0, -⟩ := h g st l hst hl
  exact ⟨st0, l0, key, hst0, hl0, hb0.symm.trans hb, hrest⟩

theorem Calm.refl (k : Kernel) : Calm k k :=
  ⟨fun _ st l hst hl => ⟨st, l, hst, hl, rfl, rfl⟩, fun _ _ h => h⟩

theorem Calm.trans (h : Calm k k') (h' : Calm k' k'') : Calm k k'' :=
  ⟨h.same.trans h'.same, fun g n hn => h'.load g n (h.load g n hn)⟩

/-- **Queues that do not grow and no new child** make a step calm. -/
theorem Calm.of_fewer
    (hl : ∀ g st' l', k'.lookup g = some st' → st'.listen = some l' →
      ∃ st l, k.lookup g = some st ∧ st.listen = some l ∧ st'.bound = st.bound
        ∧ l'.backlog = l.backlog ∧ l'.ready.length ≤ l.ready.length)
    (hc : ∀ c st', k'.lookup c = some st' → st'.Received →
      ∃ st, k.lookup c = some st ∧ st.Received ∧ st'.bound = st.bound) : Calm k k' := by
  have hsame : SameListeners k k' := by
    intro g st l hst hl'
    obtain ⟨st0, l0, hst0, hl0, hb0, hn0, -⟩ := hl g st l hst hl'
    exact ⟨st0, l0, hst0, hl0, hb0, hn0⟩
  refine ⟨hsame, fun g n hn cs hcs hchild => ?_⟩
  have hold : ∀ c ∈ cs, k.ChildOf g c := by
    intro c hmem
    obtain ⟨st, key, hst, hr, hb, hg⟩ := hchild c hmem
    obtain ⟨st0, hst0, hr0, hb0⟩ := hc c st hst hr
    exact ⟨st0, key, hst0, hr0, hb0.symm.trans hb, hsame.listensAt hg⟩
  have hready : (k'.sockets.ready g).length ≤ (k.sockets.ready g).length := by
    unfold SocketTable.ready
    cases hst : k'.sockets.get g with
    | none => exact Nat.zero_le _
    | some st =>
      rw [Option.bind_some]
      cases hl' : st.listen with
      | none => exact Nat.zero_le _
      | some l =>
        obtain ⟨st0, l0, hst0, hl0, -, -, hlen⟩ := hl g st l hst hl'
        rw [show k.sockets.get g = some st0 from hst0, Option.bind_some, hl0]
        exact hlen
  have := hn cs hcs hold
  omega

theorem Calm.of_lookup (h : ∀ g, k'.lookup g = k.lookup g) : Calm k k' := by
  refine .of_fewer (fun g st l hst hl => ?_) fun c st hst hr => ?_
  · exact ⟨st, l, (h g).symm.trans hst, hl, rfl, rfl, Nat.le_refl _⟩
  · exact ⟨st, (h c).symm.trans hst, hr, rfl⟩

theorem Calm.of_sockets (h : k'.sockets = k.sockets) : Calm k k' :=
  .of_lookup fun g => by rw [lookup, lookup, h]

/-- A socket is changed in place. -/
theorem Calm.modify (hst : k.lookup fd = some st) {f : Socket → Socket}
    (hlisten : (f st).listen = st.listen) (hbound : (f st).bound = st.bound)
    (hr : (f st).Received → st.Received) : Calm k (k.modifySocket fd f) := by
  have hlook : ∀ {g st'}, (k.modifySocket fd f).lookup g = some st' →
      (g = fd ∧ st' = f st) ∨ k.lookup g = some st' := by
    intro g st' h
    rw [lookup_modifySocket] at h
    split at h
    · rename_i hg
      rw [hst] at h
      cases h
      exact Or.inl ⟨hg, rfl⟩
    · exact Or.inr h
  refine .of_fewer (fun g st' l hg hl => ?_) fun c st' hc hr' => ?_
  · rcases hlook hg with ⟨rfl, rfl⟩ | hg
    · exact ⟨st, l, hst, hlisten.symm.trans hl, hbound, rfl, Nat.le_refl _⟩
    · exact ⟨st', l, hg, hl, rfl, rfl, Nat.le_refl _⟩
  · rcases hlook hc with ⟨rfl, rfl⟩ | hc
    · exact ⟨st, hst, hr hr', hbound⟩
    · exact ⟨st', hc, hr', rfl⟩

/-- A control block goes on; nothing leads back into a handshake. -/
theorem Calm.setTcb (hst : k.lookup fd = some st) (ht : st.tcb = some t)
    (hs : t'.state = .synReceived → t.state = .synReceived) : Calm k (k.setTcb fd t') := by
  refine .modify hst rfl rfl ?_
  rintro ⟨t1, h1, h2⟩
  cases h1
  exact ⟨t, ht, hs h2⟩

theorem Calm.remove (k : Kernel) (fd : Fd) : Calm k (k.removeSocket fd) := by
  have hlook : ∀ {g st}, (k.removeSocket fd).lookup g = some st → k.lookup g = some st := by
    intro g st h
    rw [lookup_removeSocket] at h
    split at h
    · cases h
    · exact h
  exact .of_fewer (fun g st l hg hl => ⟨st, l, hlook hg, hl, rfl, rfl, Nat.le_refl _⟩)
    fun c st hc hr => ⟨st, hlook hc, hr, rfl⟩

/-- One socket changed, and is neither a listener nor a child in its handshake now. -/
theorem Calm.of_only (h : OnlyAt fd k k')
    (hfd : ∀ st, k'.lookup fd = some st → st.listen = none ∧ ¬ st.Received) : Calm k k' := by
  have hlook : ∀ {g st}, k'.lookup g = some st → st.listen ≠ none ∨ st.Received →
      k.lookup g = some st := by
    intro g st hg hor
    have hne : g ≠ fd := by
      rintro rfl
      rcases hor with hl | hr
      · exact hl (hfd st hg).1
      · exact (hfd st hg).2 hr
    rwa [h g hne] at hg
  refine .of_fewer (fun g st l hg hl => ?_) fun c st hc hr => ⟨st, hlook hc (Or.inr hr), hr, rfl⟩
  refine ⟨st, l, hlook hg (Or.inl ?_), hl, rfl, rfl, Nat.le_refl _⟩
  rw [hl]
  exact Option.some_ne_none l

/-- A child leaves the queue it is at the head of. -/
theorem Calm.pop (hst : k.lookup fd = some st) {l : ListenState} (hl : st.listen = some l)
    {child : Fd} {rest : List Fd} (hready : l.ready = child :: rest) :
    Calm k (k.modifySocket fd fun st => { st with listen := some { l with ready := rest } }) := by
  refine .of_fewer (fun g st' l' hg hl' => ?_) fun c st' hc hr => ?_
  · rw [lookup_modifySocket] at hg
    split at hg
    · rename_i hgf
      rw [hst] at hg
      cases hg
      cases hl'
      refine ⟨st, l, hgf ▸ hst, hl, rfl, rfl, ?_⟩
      rw [hready]
      exact Nat.le_succ _
    · exact ⟨st', l', hg, hl', rfl, rfl, Nat.le_refl _⟩
  · rw [lookup_modifySocket] at hc
    split at hc
    · rename_i hcf
      rw [hst] at hc
      cases hc
      exact ⟨st, hcf ▸ hst, hr, rfl⟩
    · exact ⟨st', hc, hr, rfl⟩

/-- A fold of calm steps is calm. -/
theorem Calm.foldlM {f : Kernel → Fd → Except Panic Kernel}
    (hf : ∀ {k k' : Kernel} {fd : Fd}, f k fd = .ok k' → Calm k k') :
    ∀ {fds : List Fd} {k k' : Kernel}, fds.foldlM f k = .ok k' → Calm k k'
  | [], k, k', h => by
    cases h
    exact .refl k
  | fd :: fds, k, k', h => by
    obtain ⟨k1, h1, h⟩ := bind_eq_ok.mp h
    exact (hf h1).trans (Calm.foldlM hf h)

/-! ## 2. Calm steps of the kernel -/

theorem abortWith_calm {reason : AbortReason} (h : k.abortWith fd reason = .ok k') : Calm k k' := by
  obtain ⟨st, hst, h⟩ := bind_eq_ok.mp h
  cases h
  refine .modify (expect_eq_ok.mp hst) rfl rfl ?_
  rintro ⟨t1, h1, h2⟩
  obtain ⟨t, -, rfl⟩ := Option.map_eq_some_iff.mp h1
  cases h2

/-- A child goes to the back of a listener's queue. -/
def pushReady (k : Kernel) (g child : Fd) : Kernel :=
  k.modifySocket g fun st =>
    { st with listen := st.listen.map fun l => { l with ready := l.ready ++ [child] } }

/-- What a socket was before the push. -/
theorem lookup_pushReady {child x : Fd} {st' : Socket} (h : (k.pushReady g child).lookup x = some st') :
    ∃ st, k.lookup x = some st ∧ st'.tcb = st.tcb ∧ st'.bound = st.bound
      ∧ st'.listen.map ListenState.backlog = st.listen.map ListenState.backlog := by
  rw [pushReady, lookup_modifySocket] at h
  split at h
  · rename_i hx
    obtain ⟨st, hst, rfl⟩ := Option.map_eq_some_iff.mp h
    refine ⟨st, hx ▸ hst, rfl, rfl, ?_⟩
    cases st.listen <;> rfl
  · exact ⟨st', h, rfl, rfl, rfl⟩

theorem pushReady_same (k : Kernel) (g child : Fd) : SameListeners k (k.pushReady g child) := by
  intro x st' l' hx hl'
  obtain ⟨st, hst, -, hb, hl⟩ := lookup_pushReady hx
  rw [hl', Option.map_some, eq_comm, Option.map_eq_some_iff] at hl
  obtain ⟨l, hl, hn⟩ := hl
  exact ⟨st, l, hst, hl, hb, hn.symm⟩

theorem ready_pushReady (hst : k.lookup g = some st) {l : ListenState} (hl : st.listen = some l)
    (child x : Fd) : (k.pushReady g child).sockets.ready x
      = if x = g then k.sockets.ready g ++ [child] else k.sockets.ready x := by
  split
  · rename_i hx
    subst hx
    rw [SocketTable.ready, SocketTable.ready, show k.sockets.get x = some st from hst, pushReady,
      modifySocket, SocketTable.get_modify, if_pos rfl, show k.sockets.get x = some st from hst]
    simp [hl]
  · rename_i hx
    exact SocketTable.ready_of_get (by rw [pushReady, modifySocket, SocketTable.get_modify, if_neg hx])

/-- **The end of a handshake on the server** moves a child of a listener into its queue. -/
theorem promote_calm (ht : k.Tidy own live) (hst : k.lookup fd = some st) (htcb : st.tcb = some t)
    (hs : t.state = .synReceived) {key : BindKey} (hb : st.bound = some key)
    (hloc : key.endpoint = loc) (hcont : t.Continues t') (hs' : t'.state = .established)
    (h : (k.setTcb fd t').pushToListener fd loc = .ok k') : Calm k k' := by
  have hset : Calm k (k.setTcb fd t') := .setTcb hst htcb hcont.received
  rcases (pushToListener_cases (ht.setTcb hst htcb hcont) fd loc).of_ok h with
    ⟨rfl, -⟩ | ⟨g, hg, hk'⟩
  · exact hset
  · have hk' : k' = (k.setTcb fd t').pushReady g fd := hk'
    subst hk'
    have hsame := hset.same.trans (pushReady_same (k.setTcb fd t') g fd)
    have hchild : k.ChildOf g fd :=
      ⟨st, key, hst, ⟨t, htcb, hs⟩, hb, hloc ▸ hset.same.listensAt hg⟩
    obtain ⟨gst, l, gkey, hgst, hgl, -⟩ := hg
    refine ⟨hsame, fun x n hn cs hcs hchildren => ?_⟩
    -- the others were in their handshake before
    have hold : ∀ c ∈ cs, c ≠ fd ∧ k.ChildOf x c := by
      intro c hc
      obtain ⟨cst, ckey, hcst, ⟨t1, ht1, hs1⟩, hcb, hcg⟩ := hchildren c hc
      obtain ⟨st0, hst0, htcb0, hb0, -⟩ := lookup_pushReady hcst
      have hne : c ≠ fd := by
        rintro rfl
        rw [lookup_setTcb, if_pos rfl, hst] at hst0
        cases hst0
        cases htcb0.symm.trans ht1
        rw [hs'] at hs1
        cases hs1
      rw [lookup_setTcb, if_neg hne] at hst0
      exact ⟨hne, st0, ckey, hst0, ⟨t1, htcb0.symm.trans ht1, hs1⟩, hb0.symm.trans hcb,
        hsame.listensAt hcg⟩
    have hready : ∀ y, (k.setTcb fd t').sockets.ready y = k.sockets.ready y :=
      SocketTable.ready_modify hst rfl
    rw [ready_pushReady hgst hgl, hready, hready]
    split
    · -- the child counted before, and counts in the queue now
      rename_i hxg
      subst hxg
      have := hn (fd :: cs) (List.nodup_cons.mpr ⟨fun hmem => (hold fd hmem).1 rfl, hcs⟩)
        fun c hc => by
          rcases List.mem_cons.mp hc with rfl | hc
          · exact hchild
          · exact (hold c hc).2
      rw [List.length_cons] at this
      rw [List.length_append, List.length_singleton]
      omega
    · exact hn cs hcs fun c hc => (hold c hc).2

theorem handleOnConnection_calm (ht : k.Tidy own live)
    (hf : k.sockets.findConnection loc rem = some fd)
    (h : k.handleOnConnection fd loc rem s = .ok k') : Calm k k' := by
  obtain ⟨st, t, key, hst, htcb, hpeer, hb, hloc⟩ := ht.of_connection hf
  unfold handleOnConnection at h
  split at h
  · exact abortWith_calm h
  · obtain ⟨st', hst', h⟩ := bind_eq_ok.mp h
    cases hst.symm.trans (expect_eq_ok.mp hst')
    obtain ⟨t', htcb', h⟩ := bind_eq_ok.mp h
    cases htcb.symm.trans (expect_eq_ok.mp htcb')
    have hdata : k.handleEstablished fd loc rem t s = .ok k' → Calm k k' := by
      intro h
      obtain ⟨⟨t1, sendAck⟩, h1, h⟩ := bind_eq_ok.mp h
      have hcont := (t.handleEstablished_safe k.cfg.recvBufCap s).of_ok h1
      have hk : Calm k (k.setTcb fd t1) := .setTcb hst htcb hcont.received
      cases sendAck with
      | false =>
        cases h
        exact hk
      | true =>
        cases h
        exact hk.trans (.of_sockets rfl)
    split at h
    · split at h
      · cases h
        have hk : Calm k (k.setTcb fd (t.onSynAck s)) := by
          refine .setTcb hst htcb fun hs => ?_
          cases hs
        exact hk.trans (.of_sockets rfl)
      · cases h
        exact .refl k
    · rename_i hstate
      split at h
      · split at h
        · cases h
          exact .refl k
        · have hcont : t.Continues (t.onHandshakeAck s) := by
            refine ⟨rfl, fun hs => ?_, fun hs => ?_⟩
            · rw [hstate] at hs
              cases hs
            · cases hs
          exact promote_calm ht hst htcb hstate hb hloc hcont rfl h
      · cases h
        exact .refl k
    all_goals first
      | exact hdata h
      | cases h
        exact .refl k

/-- **A packet is calm, or it is the SYN of a new child.** -/
theorem deliver_calm (ht : k.Tidy own live) {pkt : Packet} (h : k.deliver pkt = .ok k') :
    Calm k k' ∨ ∃ s g, pkt.payload = .tcp s
      ∧ k.sockets.findConnection ⟨pkt.dst, s.dstPort⟩ ⟨pkt.src, s.srcPort⟩ = none
      ∧ (s.flags.syn && !s.flags.ack) = true
      ∧ k.findListener ⟨pkt.dst, s.dstPort⟩ = .ok (some g)
      ∧ k.acceptSyn g ⟨pkt.dst, s.dstPort⟩ ⟨pkt.src, s.srcPort⟩ s = .ok k' := by
  unfold deliver at h
  cases hp : pkt.payload with
  | udp d =>
    rw [hp] at h
    unfold udpDeliver at h
    dsimp only at h
    split at h
    · cases h
      exact Or.inl (.refl k)
    · obtain ⟨st, hst, h⟩ := bind_eq_ok.mp h
      split at h
      · cases h
        exact Or.inl (.refl k)
      · cases h
        exact Or.inl (.modify (expect_eq_ok.mp hst) rfl rfl fun hr => hr)
  | tcp s =>
    rw [hp] at h
    dsimp only at h
    unfold tcpDeliver at h
    dsimp only at h
    split at h
    · rename_i fd hf
      exact Or.inl (handleOnConnection_calm ht hf h)
    · rename_i hnone
      split at h
      · rename_i hsyn
        obtain ⟨o, ho, h⟩ := bind_eq_ok.mp h
        cases o with
        | none =>
          cases h
          exact Or.inl (.of_sockets rfl)
        | some g => exact Or.inr ⟨s, g, rfl, hnone, hsyn, ho, h⟩
      · cases h
        split
        · exact Or.inl (.refl k)
        · exact Or.inl (.of_sockets rfl)

theorem acceptSyn_same (h : k.acceptSyn g loc rem s = .ok k') :
    SameListeners k k' := by
  rcases acceptSyn_lookup h with rfl | ⟨child, hl, -, -, hlook⟩
  · exact (Calm.refl k').same
  · intro x st l hx hl'
    rw [hlook] at hx
    split at hx
    · cases hx
      rw [hl] at hl'
      cases hl'
    · exact ⟨st, l, hx, hl', rfl, rfl⟩

theorem deliver_same (ht : k.Tidy own live) {pkt : Packet} (h : k.deliver pkt = .ok k') :
    SameListeners k k' := by
  rcases deliver_calm ht h with hc | ⟨s, g, -, -, -, -, ha⟩
  · exact hc.same
  · exact acceptSyn_same ha

theorem countAll_calm : ∀ {fds : List Fd} {k k' : Kernel} {resend abort : List Fd},
    countAll k fds = .ok (k', resend, abort) → Calm k k'
  | [], k, k', resend, abort, h => by
    cases h
    exact .refl k
  | g :: fds, k, k', resend, abort, h => by
    obtain ⟨⟨k1, action⟩, h1, h⟩ := bind_eq_ok.mp h
    obtain ⟨⟨k2, resend2, abort2⟩, h2, h⟩ := bind_eq_ok.mp h
    obtain ⟨t, ht, h1⟩ := bind_eq_ok.mp h1
    obtain ⟨st, hst, htcb⟩ := Option.bind_eq_some_iff.mp (expect_eq_ok.mp ht)
    obtain ⟨hk1, -⟩ : k.setTcb g (t.checkRetx k.cfg.retxThreshold k.cfg.retxMax).1 = k1
        ∧ (t.checkRetx k.cfg.retxThreshold k.cfg.retxMax).2 = action :=
      Prod.mk.inj (Except.ok.inj h1)
    obtain ⟨hk2, -⟩ := Prod.mk.inj (Except.ok.inj h)
    obtain ⟨-, hstate, -⟩ := t.checkRetx_state k.cfg.retxThreshold k.cfg.retxMax
    subst hk2
    have hone : Calm k k1 := by
      rw [← hk1]
      exact .setTcb hst htcb (by rw [hstate]; exact fun hs => hs)
    exact hone.trans (countAll_calm h2)

theorem checkRetx_calm (h : k.checkRetx = .ok k') : Calm k k' := by
  obtain ⟨⟨k1, resend, abort⟩, h1, h⟩ := bind_eq_ok.mp h
  obtain ⟨k2, h2, h⟩ := bind_eq_ok.mp h
  refine ((countAll_calm h1).trans (Calm.foldlM (fun hc => ?_) h2)).trans
    (Calm.foldlM (fun hc => abortWith_calm hc) h)
  obtain ⟨st, -, hc⟩ := bind_eq_ok.mp hc
  obtain ⟨t, -, hc⟩ := bind_eq_ok.mp hc
  obtain ⟨loc, -, hc⟩ := bind_eq_ok.mp hc
  obtain ⟨seg, -, hc⟩ := bind_eq_ok.mp hc
  cases hc
  exact .of_sockets rfl

theorem segmentAll_calm (h : k.segmentAll = .ok k') : Calm k k' := by
  refine Calm.foldlM (fun hc => ?_) h
  obtain ⟨st, hst, hc⟩ := bind_eq_ok.mp hc
  obtain ⟨loc, -, hc⟩ := bind_eq_ok.mp hc
  obtain ⟨t, htcb, hc⟩ := bind_eq_ok.mp hc
  obtain ⟨⟨t', segs⟩, hloop, hc⟩ := bind_eq_ok.mp hc
  have hstate := ((t.segmentLoop_safe _ _ _ _).of_ok hloop).2
  cases hc
  exact (Calm.setTcb (expect_eq_ok.mp hst) (expect_eq_ok.mp htcb)
    (by rw [hstate]; exact fun hs => hs)).trans (.of_sockets (sockets_emitAll _ _ _ _))

theorem reapClosed_calm (k : Kernel) : Calm k k.reapClosed := by
  have hfold : ∀ (fds : List Fd) (k : Kernel), Calm k (fds.foldl removeSocket k) := by
    intro fds
    induction fds with
    | nil => exact Calm.refl
    | cons fd fds ih => exact fun k => (Calm.remove k fd).trans (ih _)
  exact hfold _ k

theorem resetChild_calm (h : k.resetChild fd = .ok k') : Calm k k' := by
  unfold resetChild at h
  split at h
  · cases h
    exact .refl k
  · split at h
    · cases h
      exact .remove k fd
    · rename_i t _
      obtain ⟨loc, -, h⟩ := bind_eq_ok.mp h
      cases h
      have hemit : Calm k (k.emit loc t.peer (t.rstSegment loc t.peer)) := .of_sockets rfl
      exact hemit.trans (.remove _ fd)

/-- **Closing is calm**, of a listener as of a connection. -/
theorem close_calm (h : k.close fd = .ok k') : Calm k k' := by
  obtain ⟨⟨k1, reap⟩, h1, h⟩ := bind_eq_ok.mp h
  have hclose : Calm k k1 := by
    unfold onClose at h1
    split at h1
    · cases h1
      exact .refl k
    · rename_i st hst
      split at h1
      · obtain ⟨loc, -, h1⟩ := bind_eq_ok.mp h1
        obtain ⟨k2, h2, h1⟩ := bind_eq_ok.mp h1
        cases h1
        exact Calm.foldlM (fun hc => resetChild_calm hc) h2
      · rename_i t hty htcb
        split at h1
        · rename_i hactive
          split at h1
          · obtain ⟨loc, -, h1⟩ := bind_eq_ok.mp h1
            cases h1
            exact .of_sockets rfl
          · cases h1
            refine .modify hst rfl rfl ?_
            rintro ⟨t1, ht1, hs1⟩
            cases ht1
            refine ⟨t, htcb, ?_⟩
            split at hs1
            · exact hs1
            · exact t.shutWrite_continues.received hs1
        · cases h1
          exact .refl k
      · cases h1
        exact .refl k
  cases reap with
  | true =>
    cases h
    exact hclose.trans (.remove k1 fd)
  | false =>
    cases h
    exact hclose

/-! ## 3. A new listener -/

/-- No socket is bound to the address of the key, or to a wildcard on its port; and if the key is a
wildcard, none is bound on the port at all. -/
def Vacant (k : Kernel) (key : BindKey) : Prop :=
  ∀ c st ckey, k.lookup c = some st → st.bound = some ckey → ckey.domain = key.domain →
    ckey.ty = key.ty → ckey.localPort = key.localPort → ckey.localAddr ≠ key.localAddr
      ∧ ckey.localAddr.isUnspecified = false ∧ key.localAddr.isUnspecified = false

/-- The socket that a successful `bind` leaves. -/
def boundSocket (key : BindKey) : Socket :=
  { Socket.new key.domain key.ty with bound := some key }

theorem bindAt_fresh (ht : k.Tidy own live) {key : BindKey} (h : k.bindAt key = (k', .ok fd)) :
    fd = k.sockets.nextId ∧ k.Vacant key
      ∧ ∀ x, k'.lookup x = if x = k.sockets.nextId then some (boundSocket key) else k.lookup x := by
  unfold bindAt at h
  dsimp only at h
  split at h
  · cases h
  · rename_i hfree
    obtain ⟨rfl, hfd⟩ := Prod.mk.inj h
    refine ⟨(Except.ok.inj hfd).symm, fun c st ckey hst hb h1 h2 h3 => ?_, fun x => ?_⟩
    · have hmem : ckey ∈ k.sockets.bindingsOnPort key.domain key.ty key.localPort := by
        have hlisted := (ht.listed ckey c).mpr ⟨st, hst, hb⟩
        refine List.mem_filter.mpr ⟨IndexMap.mem_keys.mpr ?_, by simp [h1, h2, h3]⟩
        unfold SocketTable.findByBind at hlisted
        cases hget : k.sockets.bindings.get? ckey with
        | none =>
          rw [hget] at hlisted
          cases hlisted
        | some fds => exact ⟨fds, rfl⟩
      rw [Bool.not_eq_true, List.any_eq_false] at hfree
      have := hfree ckey hmem
      simpa [not_or] using this
    · by_cases hx : x = k.sockets.nextId
      · have hopen : (k.sockets.insert (Socket.new key.domain key.ty)).1.get k.sockets.nextId
            = some (Socket.new key.domain key.ty) := by
          rw [SocketTable.get_insert, if_pos rfl]
        rw [if_pos hx, lookup_modifySocket]
        exact (if_pos hx).trans
          (congrArg (Option.map fun st : Socket => { st with bound := some key }) hopen)
      · rw [if_neg hx, lookup_modifySocket]
        exact (if_neg hx).trans ((SocketTable.get_insert k.sockets _ x).trans (if_neg hx))

/-- **A successful `bind`** opens one socket, at an address that was vacant. -/
theorem bind_fresh (ht : k.Tidy own live) {addr : SocketAddr} {ty : SockType}
    (h : k.bind addr ty = .ok (k', .ok fd)) : ∃ key : BindKey, key.ty = ty
      ∧ key.domain = domainOf key.localAddr ∧ fd = k.sockets.nextId ∧ k.Vacant key
      ∧ ∀ x, k'.lookup x = if x = k.sockets.nextId then some (boundSocket key) else k.lookup x := by
  unfold bind at h
  dsimp only at h
  split at h
  · cases h
  · split at h
    · obtain ⟨⟨sockets, port⟩, hport, h⟩ := bind_eq_ok.mp h
      obtain ⟨⟨ports, hsockets⟩, -⟩ := (allocatePort_safe _ _ _).of_ok hport
      dsimp only at hsockets
      subst hsockets
      cases port with
      | none => cases h
      | some port =>
        have ht1 : ({ k with sockets := { k.sockets with ports := ports } } : Kernel).Tidy own live :=
          SocketTable.Tidy.ports ht ports
        exact ⟨_, rfl, rfl, bindAt_fresh ht1 (Except.ok.inj h)⟩
    · exact ⟨_, rfl, rfl, bindAt_fresh ht (Except.ok.inj h)⟩

/-- `TcpListener::bind` has opened a listener. -/
structure NewListener (k k' : Kernel) (key : BindKey) (n : Nat) : Prop where
  ty : key.ty = .stream
  domain : key.domain = domainOf key.localAddr
  vacant : k.Vacant key
  next : k.lookup k.sockets.nextId = none
  lookup : ∀ x, k'.lookup x = if x = k.sockets.nextId then
    some { boundSocket key with listen := some ⟨n, []⟩ } else k.lookup x

/-- **No two listeners answer for one address.** -/
def Exclusive (k : Kernel) : Prop :=
  ∀ g g' st st' l l' key key', k.lookup g = some st → k.lookup g' = some st' →
    st.listen = some l → st'.listen = some l' → st.bound = some key → st'.bound = some key' →
    key.domain = key'.domain → key.localPort = key'.localPort → g ≠ g' →
    key.localAddr ≠ key'.localAddr ∧ key.localAddr.isUnspecified = false
      ∧ key'.localAddr.isUnspecified = false

theorem Exclusive.same (he : k.Exclusive) (h : SameListeners k k') : k'.Exclusive := by
  intro g g' st st' l l' key key' hg hg' hl hl' hb hb' hdom hport hne
  obtain ⟨st0, l0, hst0, hl0, hb0, -⟩ := h g st l hg hl
  obtain ⟨st1, l1, hst1, hl1, hb1, -⟩ := h g' st' l' hg' hl'
  exact he g g' st0 st1 l0 l1 key key' hst0 hst1 hl0 hl1 (hb0.symm.trans hb) (hb1.symm.trans hb')
    hdom hport hne

theorem Exclusive.newListener (ht : k.Tidy own live) (he : k.Exclusive) {key : BindKey} {n : Nat}
    (h : NewListener k k' key n) : k'.Exclusive := by
  -- the new listener against an old one
  have hnew : ∀ {g st l gkey}, k.lookup g = some st → st.listen = some l → st.bound = some gkey →
      gkey.domain = key.domain → gkey.localPort = key.localPort → gkey.localAddr ≠ key.localAddr
        ∧ gkey.localAddr.isUnspecified = false ∧ key.localAddr.isUnspecified = false := by
    intro g st l gkey hg hl hb hdom hport
    have hfit := ht.socket g st hg
    have hty : gkey.ty = key.ty := by
      rw [(hfit.key gkey hb).2.1, (hfit.listen (by rw [hl]; exact Option.some_ne_none l)).1, h.ty]
    exact h.vacant g st gkey hg hb hdom hty hport
  intro g g' st st' l l' gkey gkey' hg hg' hl hl' hb hb' hdom hport hne
  rw [h.lookup] at hg hg'
  split at hg
  · rename_i hgn
    rw [if_neg (fun hgn' => hne (hgn.trans hgn'.symm))] at hg'
    cases hg
    cases hb
    obtain ⟨h1, h2, h3⟩ := hnew hg' hl' hb' hdom.symm hport.symm
    exact ⟨h1.symm, h3, h2⟩
  · split at hg'
    · cases hg'
      cases hb'
      exact hnew hg hl hb hdom hport
    · exact he g g' st st' l l' gkey gkey' hg hg' hl hl' hb hb' hdom hport hne

/-! ## 4. Runs -/

/-- Does every packet that the drain delivers on the host meet a test? -/
def routeMeets (p : Kernel → Packet → Bool) : Kernel → List Packet → Bool
  | _, [] => true
  | k, pkt :: pkts =>
    if k.isLocal pkt.dst then
      p k pkt && match k.deliver pkt with
        | .ok k => routeMeets p k pkts
        | .error _ => true
    else routeMeets p k pkts

/-- In each of its passes? -/
def loopMeets (p : Kernel → Packet → Bool) : Nat → Kernel → Bool
  | 0, _ => true
  | fuel + 1, k =>
    match k.segmentAll with
    | .error _ => true
    | .ok k =>
      k.outbound.isEmpty || (routeMeets p { k with outbound := [] } k.outbound
        && match route { k with outbound := [] } k.outbound with
          | .ok (k, _) => loopMeets p fuel k
          | .error _ => true)

/-- In a turn of `egress`? -/
def egressMeets (p : Kernel → Packet → Bool) (fuel : Nat) (k : Kernel) : Bool :=
  match k.checkRetx with
  | .ok k => loopMeets p fuel k
  | .error _ => true

section Invariant

variable {P : Kernel → Prop} {p : Kernel → Packet → Bool}
  (hcalm : ∀ {k k' : Kernel}, Calm k k' → P k → P k')
  (hdeliver : ∀ {k k' : Kernel} {pkt : Packet}, k.Tidy own (fun _ => True) → P k →
    p k pkt = true → k.deliver pkt = .ok k' → P k')

include hdeliver

theorem route_invariant : ∀ {pkts : List Packet} {k k' : Kernel} {out : List Packet},
    k.Tidy own (fun _ => True) → P k → routeMeets p k pkts = true → route k pkts = .ok (k', out) →
    P k'
  | [], k, k', out, _, hP, _, h => by
    cases h
    exact hP
  | pkt :: pkts, k, k', out, ht, hP, hm, h => by
    unfold routeMeets at hm
    unfold route at h
    split at h
    · rename_i hlocal
      rw [if_pos hlocal, Bool.and_eq_true] at hm
      obtain ⟨k1, h1, h⟩ := bind_eq_ok.mp h
      rw [h1] at hm
      exact route_invariant ((deliver_safe ht pkt).of_ok h1) (hdeliver ht hP hm.1 h1) hm.2 h
    · rename_i hlocal
      rw [if_neg hlocal] at hm
      obtain ⟨⟨k1, out1⟩, h1, h⟩ := bind_eq_ok.mp h
      cases h
      exact route_invariant ht hP hm h1

include hcalm

theorem egressLoop_invariant (fuel : Nat) : ∀ {k k' : Kernel} {out : List Packet},
    k.Tidy own (fun _ => True) → P k → loopMeets p fuel k = true →
    egressLoop fuel k = .ok (k', out) → P k' := by
  induction fuel with
  | zero =>
    intro k k' out _ _ _ h
    cases h
  | succ fuel ih =>
    intro k k' out ht hP hm h
    unfold loopMeets at hm
    obtain ⟨k1, h1, h⟩ := bind_eq_ok.mp h
    have ht1 := (segmentAll_safe ht).of_ok h1
    have hP1 := hcalm (segmentAll_calm h1) hP
    rw [h1] at hm
    dsimp only at hm
    split at h
    · cases h
      exact hP1
    · rename_i hout
      rw [Bool.or_eq_true, or_iff_right hout, Bool.and_eq_true] at hm
      obtain ⟨⟨k2, out2⟩, h2, h⟩ := bind_eq_ok.mp h
      obtain ⟨⟨k3, out3⟩, h3, h⟩ := bind_eq_ok.mp h
      cases h
      have ht1 : ({ k1 with outbound := [] } : Kernel).Tidy own fun _ => True := ht1
      have hP1 : P { k1 with outbound := [] } := hcalm (k := k1) (.of_sockets rfl) hP1
      rw [h2] at hm
      exact ih ((route_safe ht1).of_ok h2) (route_invariant hdeliver ht1 hP1 hm.1 h2) hm.2 h3

/-- **What calm steps and deliveries keep, `egress` keeps.** -/
theorem egress_invariant (ht : k.Tidy own fun _ => True) (hP : P k) {fuel : Nat}
    (hm : egressMeets p fuel k = true) {out : List Packet} (h : k.egress fuel = .ok (k', out)) :
    P k' := by
  unfold egressMeets at hm
  obtain ⟨k1, h1, h⟩ := bind_eq_ok.mp h
  obtain ⟨⟨k2, out2⟩, h2, h⟩ := bind_eq_ok.mp h
  cases h
  rw [h1] at hm
  exact hcalm (reapClosed_calm k2) (egressLoop_invariant hcalm hdeliver fuel
    ((checkRetx_safe ht).of_ok h1) (hcalm (checkRetx_calm h1) hP) hm h2)

end Invariant

theorem routeMeets_true : ∀ (pkts : List Packet) (k : Kernel), routeMeets (fun _ _ => true) k pkts = true
  | [], _ => rfl
  | pkt :: pkts, k => by
    unfold routeMeets
    split
    · cases k.deliver pkt with
      | error e => rfl
      | ok k1 => exact routeMeets_true pkts k1
    · exact routeMeets_true pkts k

theorem loopMeets_true (fuel : Nat) : ∀ k : Kernel, loopMeets (fun _ _ => true) fuel k = true := by
  induction fuel with
  | zero => exact fun _ => rfl
  | succ fuel ih =>
    intro k
    unfold loopMeets
    cases k.segmentAll with
    | error e => rfl
    | ok k1 =>
      dsimp only
      rw [routeMeets_true, Bool.true_and, Bool.or_eq_true]
      cases route { k1 with outbound := [] } k1.outbound with
      | error e => exact Or.inr rfl
      | ok r => exact Or.inr (ih r.1)

theorem egressMeets_true (fuel : Nat) (k : Kernel) : egressMeets (fun _ _ => true) fuel k = true := by
  unfold egressMeets
  cases k.checkRetx with
  | error e => rfl
  | ok k1 => exact loopMeets_true fuel k1

end Kernel

namespace Host

open Kernel

variable {h h' : Host}

/-- The socket that a call is about, or a new one, is the application's own now. -/
theorem calm_of_only {fd : Fd} {handle : Handle} (ht' : h'.Tidy)
    (honly : OnlyAt fd h.kernel h'.kernel) (hown : h'.handles.get? fd = some handle)
    (hne : handle ≠ .listener) : Calm h.kernel h'.kernel := by
  refine .of_only honly fun st hst => ⟨Tidy.listen_of_own ht' hown hne hst, ?_⟩
  rintro ⟨t, ht, hs⟩
  have := (SocketTable.Tidy.of_received ht' hst ht hs).1
  rw [this] at hown
  cases hown

/-- **A call is calm.** -/
theorem call_calm (hh : h.Tidy) {c : Syscall} {r : Reply} (hs : h.call c = .ok (h', r)) :
    Calm h.kernel h'.kernel := by
  have ht' : h'.Tidy := (call_safe hh c).of_ok hs
  cases call_cases hh hs with
  | idle heq =>
    rw [heq]
    exact .refl h.kernel
  | @handled fd handle hown hne honly hsame =>
    rcases hsame with hsame | hsame
    · exact calm_of_only ht' honly (by rw [hsame]; exact hown) hne
    · have hown' : h'.handles.get? fd = some .stream := by
        rw [hsame]
        exact handles_insert_self
      exact calm_of_only ht' honly hown' nofun
  | option fd opt heq =>
    rw [heq]
    unfold setOption
    split
    · exact .refl h.kernel
    · rename_i st hst
      cases opt <;> exact .modify hst rfl rfl fun hr => hr
  | accepted hst hl hready heq =>
    rw [heq]
    exact .pop hst hl hready
  | @closed fd handle k hown hk ht hclose hsame =>
    have hk : Calm h.kernel k := by
      rcases hk with rfl | ⟨hne, honly⟩
      · exact .refl h.kernel
      · exact calm_of_only (show Host.Tidy ⟨k, h.handles⟩ from ht) honly hown hne
    exact hk.trans (close_calm hclose)

/-- `TcpListener::bind` fails, or there is a new listener. -/
theorem listen_cases (hh : h.Tidy) {addr : SocketAddr} {r : Except NetError Fd}
    (hs : h.listen addr = .ok (h', r)) : Calm h.kernel h'.kernel
      ∨ ∃ key n, NewListener h.kernel h'.kernel key n := by
  obtain ⟨⟨k1, r1⟩, h1, hs⟩ := bind_eq_ok.mp hs
  cases r1 with
  | error e =>
    cases hs
    exact Or.inl (.of_lookup ((bind_only h1).2 e rfl))
  | ok fd =>
    obtain ⟨key, hty, hdom, rfl, hvacant, hlook⟩ := bind_fresh hh h1
    obtain ⟨⟨k2, r2⟩, h2, hs⟩ := bind_eq_ok.mp hs
    have hst : k1.lookup h.kernel.sockets.nextId = some (boundSocket key) := by
      rw [hlook, if_pos rfl]
    have h2' : k2 = k1.modifySocket h.kernel.sockets.nextId
        (fun st => { st with listen := some ⟨k1.cfg.defaultBacklog, []⟩ }) ∧ r2 = .ok () := by
      unfold Kernel.listen at h2
      rw [hst] at h2
      dsimp only at h2
      rw [if_neg (fun hne => hne hty)] at h2
      obtain ⟨h3, h4⟩ := Prod.mk.inj (Except.ok.inj h2)
      exact ⟨h3.symm, h4.symm⟩
    obtain ⟨rfl, rfl⟩ := h2'
    cases hs
    refine Or.inr ⟨key, k1.cfg.defaultBacklog, hty, hdom, hvacant,
      (SocketTable.Tidy.next hh).1, fun x => ?_⟩
    rw [lookup_modifySocket]
    split
    · rw [hst]
      rfl
    · rename_i hx
      rw [hlook, if_neg hx]

/-- **What a step of a host does to the listeners.** -/
theorem step_cases (hh : h.Tidy) {op : ShimOp} {r : Reply} {out : List Packet}
    (hs : h.step op = .ok (h', r, out)) : Calm h.kernel h'.kernel
      ∨ (∃ key n, NewListener h.kernel h'.kernel key n)
      ∨ (∃ pkt, op = .deliver pkt ∧ h.kernel.deliver pkt = .ok h'.kernel)
      ∨ ∃ fuel, op = .egress fuel ∧ h.kernel.egress fuel = .ok (h'.kernel, out) := by
  have ht' : h'.Tidy := (step_safe hh op).of_ok hs
  cases op with
  | listen addr =>
    obtain ⟨⟨h1, r1⟩, h1s, hs⟩ := bind_eq_ok.mp hs
    cases hs
    rcases listen_cases hh h1s with hc | hn
    · exact Or.inl hc
    · exact Or.inr (Or.inl hn)
  | connect peer =>
    cases hs
    refine Or.inl (calm_of_only ht' (fun g hg => ?_) handles_insert_self nofun)
    exact (SocketTable.get_insert h.kernel.sockets _ g).trans (if_neg hg)
  | bindUdp addr =>
    obtain ⟨⟨h1, r1⟩, h1s, hs⟩ := bind_eq_ok.mp hs
    cases hs
    obtain ⟨⟨k1, r1⟩, h2, h1s⟩ := bind_eq_ok.mp h1s
    cases r1 with
    | error e =>
      cases h1s
      exact Or.inl (.of_lookup ((bind_only h2).2 e rfl))
    | ok fd =>
      cases h1s
      exact Or.inl (calm_of_only ht' ((bind_only h2).1 fd rfl).2 handles_insert_self nofun)
  | call c =>
    obtain ⟨⟨h1, r1⟩, h1s, hs⟩ := bind_eq_ok.mp hs
    cases hs
    exact Or.inl (call_calm hh h1s)
  | deliver pkt =>
    obtain ⟨k1, h1s, hs⟩ := bind_eq_ok.mp hs
    cases hs
    exact Or.inr (Or.inr (Or.inl ⟨pkt, rfl, h1s⟩))
  | egress fuel =>
    obtain ⟨⟨k1, out1⟩, h1s, hs⟩ := bind_eq_ok.mp hs
    cases hs
    exact Or.inr (Or.inr (Or.inr ⟨fuel, rfl, h1s⟩))

theorem step_exclusive (hh : h.Tidy) (he : h.kernel.Exclusive) {op : ShimOp} {r : Reply}
    {out : List Packet} (hs : h.step op = .ok (h', r, out)) : h'.kernel.Exclusive := by
  rcases step_cases hh hs with hc | ⟨key, n, hn⟩ | ⟨pkt, -, hd⟩ | ⟨fuel, -, hg⟩
  · exact he.same hc.same
  · exact he.newListener hh hn
  · exact he.same (deliver_same hh hd)
  · exact egress_invariant (fun hc he => Exclusive.same he hc.same)
      (fun ht he _ hd => Exclusive.same he (deliver_same ht hd)) hh he (egressMeets_true fuel _) hg

theorem run_exclusive : ∀ {ops : List ShimOp} {h h' : Host}, h.Tidy → h.kernel.Exclusive →
    h.run ops = .ok h' → h'.Tidy ∧ h'.kernel.Exclusive
  | [], h, h', hh, he, hrun => by
    cases hrun
    exact ⟨hh, he⟩
  | op :: ops, h, h', hh, he, hrun => by
    obtain ⟨⟨h1, r, out⟩, h1s, hrun⟩ := bind_eq_ok.mp hrun
    exact run_exclusive ((step_safe hh op).of_ok h1s) (step_exclusive hh he h1s) hrun

end Host

namespace Kernel

variable {own : Fd → Option Handle} {live : Fd → Prop} {k k' k'' : Kernel} {fd g : Fd}
  {st : Socket} {loc : SocketAddr}

/-! ## 5. Whose child it is -/

theorem firstListener_ok : ∀ {fds : List Fd}, (∀ g ∈ fds, k.lookup g ≠ none) →
    ∃ o, findListener.firstListener k fds = .ok o
  | [], _ => ⟨none, rfl⟩
  | fd :: fds, h => by
    obtain ⟨st, hst⟩ := Option.ne_none_iff_exists'.mp (h fd List.mem_cons_self)
    obtain ⟨o, ho⟩ := firstListener_ok fun g hg => h g (List.mem_cons_of_mem fd hg)
    unfold findListener.firstListener
    rw [hst]
    by_cases hl : st.listen.isSome = true
    · exact ⟨some fd, if_pos hl⟩
    · exact ⟨o, (if_neg hl).trans ho⟩

/-- **`find_listener` finds the listener that answers for an address**, which is the only one. -/
theorem findListener_eq_ok (ht : k.Tidy own live) (he : k.Exclusive) :
    k.findListener loc = .ok (some g) ↔ k.ListensAt loc g := by
  constructor
  · intro h
    exact (findListener_safe ht loc).of_ok h g rfl
  · intro hg
    have hlive : ∀ key x, x ∈ k.sockets.findByBind key → k.lookup x ≠ none := by
      intro key x hx
      obtain ⟨st, hst, -⟩ := (ht.listed key x).mp hx
      intro hnone
      cases hst.symm.trans hnone
    obtain ⟨o, ho⟩ : ∃ o, k.findListener loc = .ok o := by
      refine firstListener_ok fun x hx => ?_
      rcases List.mem_append.mp hx with hx | hx
      · exact hlive _ x hx
      · exact hlive _ x hx
    cases o with
    | none => exact absurd ho (findListener_ne_none ht hg)
    | some g' =>
      have hg' := (findListener_safe ht loc).of_ok ho g' rfl
      rw [ho]
      by_contra hne
      have hne : g ≠ g' := fun heq => hne (by rw [heq])
      obtain ⟨st, l, key, hst, hl, hb, hdom, hport, haddr⟩ := hg
      obtain ⟨st', l', key', hst', hl', hb', hdom', hport', haddr'⟩ := hg'
      obtain ⟨h1, h2, h3⟩ := he g g' st st' l l' key key' hst hst' hl hl' hb hb'
        (hdom.trans hdom'.symm) (hport.trans hport'.symm) hne
      -- neither listens on the wildcard, so both listen at the address
      rcases haddr with haddr | haddr
      · rcases haddr' with haddr' | haddr'
        · exact h1 (haddr.trans haddr'.symm)
        · rw [haddr', isUnspecified_unspecifiedLike] at h3
          cases h3
      · rw [haddr, isUnspecified_unspecifiedLike] at h2
        cases h2

/-- Is a socket a child in its handshake that `find_listener` gives to this listener? -/
def isChildOf (k : Kernel) (g c : Fd) : Bool :=
  match k.lookup c with
  | none => false
  | some st =>
    match st.tcb, st.bound with
    | some t, some key => t.state == .synReceived && match k.findListener key.endpoint with
        | .ok (some g') => g' == g
        | _ => false
    | _, _ => false

theorem isChildOf_iff (ht : k.Tidy own live) (he : k.Exclusive) {c : Fd} :
    k.isChildOf g c = true ↔ k.ChildOf g c := by
  constructor
  · intro h
    unfold isChildOf at h
    split at h
    · cases h
    · rename_i st hst
      split at h
      · rename_i t key htcb hb
        rw [Bool.and_eq_true, beq_iff_eq] at h
        obtain ⟨hs, h⟩ := h
        split at h
        · rename_i g' hg'
          rw [beq_iff_eq] at h
          subst h
          exact ⟨st, key, hst, ⟨t, htcb, hs⟩, hb, (findListener_eq_ok ht he).mp hg'⟩
        · cases h
      · cases h
  · rintro ⟨st, key, hst, ⟨t, htcb, hs⟩, hb, hg⟩
    simp [isChildOf, hst, htcb, hb, hs, (findListener_eq_ok ht he).mpr hg]

/-! ## 6. Closing a listener -/

/-- What closing a listener should take along: itself, its queue, and its children in their
handshakes. -/
def closesWith (k : Kernel) (fd c : Fd) : Bool :=
  c == fd || (k.sockets.ready fd).contains c || k.isChildOf fd c

/-- The RST for a child of a listener that goes away. -/
def resetPacket (k : Kernel) (c : Fd) : Option Packet :=
  match k.lookup c with
  | none => none
  | some st =>
    match st.tcb, st.bound with
    | some t, some key =>
      some ⟨key.localAddr, t.peer.ip, 64, .tcp (t.rstSegment key.endpoint t.peer)⟩
    | _, _ => none

/-- Some sockets are gone, from the table and from both indices; nothing else is touched but the
outbound queue. -/
structure Removes (gone : Fd → Bool) (k k' : Kernel) : Prop where
  lookup : ∀ c, k'.lookup c = if gone c then none else k.lookup c
  binding : ∀ key, k'.sockets.findByBind key = (k.sockets.findByBind key).filter fun c => !gone c
  connection : ∀ l r, k'.sockets.findConnection l r
    = (k.sockets.findConnection l r).filter fun c => !gone c
  nextId : k'.sockets.nextId = k.sockets.nextId
  ports : k'.sockets.ports = k.sockets.ports
  cfg : k'.cfg = k.cfg
  addresses : k'.addresses = k.addresses
  tcpIsn : k'.tcpIsn = k.tcpIsn

/-- **Closing a listener touches only its own**: it and its children go, each child with one RST,
and everything else stays as it is. -/
def ClosesItsOwn (k : Kernel) (fd : Fd) : Prop :=
  ∃ k' children rsts, k.close fd = .ok k' ∧ Removes (k.closesWith fd) k k'
    ∧ children.Nodup ∧ (∀ c, c ∈ children ↔ c ≠ fd ∧ k.closesWith fd c = true)
    ∧ List.Forall₂ (fun c pkt => k.resetPacket c = some pkt) children rsts
    ∧ k'.outbound = k.outbound ++ rsts

variable {gone gone' : Fd → Bool}

theorem Removes.trans (h : Removes gone k k') (h' : Removes gone' k' k'') :
    Removes (fun c => gone c || gone' c) k k'' where
  lookup c := by
    rw [h'.lookup, h.lookup]
    cases gone c <;> cases gone' c <;> rfl
  binding key := by
    rw [h'.binding, h.binding, List.filter_filter]
    refine List.filter_congr fun c _ => ?_
    cases gone c <;> cases gone' c <;> rfl
  connection l r := by
    rw [h'.connection, h.connection]
    cases k.sockets.findConnection l r with
    | none => rfl
    | some c =>
      simp only [Option.filter_some]
      cases hc : gone c
      · rfl
      · simp
  nextId := h'.nextId.trans h.nextId
  ports := h'.ports.trans h.ports
  cfg := h'.cfg.trans h.cfg
  addresses := h'.addresses.trans h.addresses
  tcpIsn := h'.tcpIsn.trans h.tcpIsn

theorem Removes.congr (h : Removes gone k k') (heq : ∀ c, gone c = gone' c) : Removes gone' k k' := by
  rwa [show gone' = gone from funext fun c => (heq c).symm]

theorem Removes.one (k : Kernel) (fd : Fd) (out : List Packet) :
    Removes (fun c => c == fd) k ({ k with outbound := out }.removeSocket fd) where
  lookup c := by
    rw [lookup_removeSocket]
    simp only [beq_iff_eq]
    rfl
  binding key := by
    refine (SocketTable.findByBind_remove k.sockets fd key).trans (List.filter_congr fun c _ => ?_)
    by_cases hc : c = fd <;> simp [hc]
  connection l r := by
    refine Option.ext fun c => ?_
    refine SocketTable.connections_remove.trans ?_
    rw [Option.filter_eq_some_iff]
    simp [SocketTable.findConnection, and_comm]
  nextId := rfl
  ports := rfl
  cfg := rfl
  addresses := rfl
  tcpIsn := rfl

/-- Resetting the children one by one. -/
theorem resetChildren_removes : ∀ {cs : List Fd} {k : Kernel}, cs.Nodup →
    (∀ c ∈ cs, ∃ pkt, k.resetPacket c = some pkt) →
    ∃ k' rsts, cs.foldlM resetChild k = .ok k' ∧ Removes (fun c => cs.contains c) k k'
      ∧ List.Forall₂ (fun c pkt => k.resetPacket c = some pkt) cs rsts
      ∧ k'.outbound = k.outbound ++ rsts
  | [], k, _, _ => by
    refine ⟨k, [], rfl, ⟨fun c => rfl, fun key => ?_, fun l r => ?_, rfl, rfl, rfl, rfl, rfl⟩, .nil,
      (List.append_nil _).symm⟩
    · exact (List.filter_eq_self.mpr fun _ _ => rfl).symm
    · cases k.sockets.findConnection l r <;> rfl
  | c :: cs, k, hnodup, hpkt => by
    obtain ⟨hc, hnodup⟩ := List.nodup_cons.mp hnodup
    obtain ⟨pkt, hpc⟩ := hpkt c List.mem_cons_self
    have hone : k.resetChild c = .ok ({ k with outbound := k.outbound ++ [pkt] }.removeSocket c) := by
      unfold resetPacket at hpc
      unfold resetChild
      cases hst : k.lookup c with
      | none =>
        rw [hst] at hpc
        cases hpc
      | some st =>
        rw [hst] at hpc
        dsimp only at hpc ⊢
        split at hpc
        · rename_i t key ht hb
          cases hpc
          simp only [ht, boundEndpoint, hb]
          rfl
        · cases hpc
    have hsame : ∀ x, x ≠ c → ({ k with outbound := k.outbound ++ [pkt] }.removeSocket c).resetPacket x
        = k.resetPacket x := by
      intro x hx
      unfold resetPacket
      rw [lookup_removeSocket, if_neg hx]
      rfl
    obtain ⟨k', rsts, hfold, hrem, hall, hout⟩ := resetChildren_removes hnodup
      (k := { k with outbound := k.outbound ++ [pkt] }.removeSocket c) fun x hx => by
        rw [hsame x fun heq => hc (heq ▸ hx)]
        exact hpkt x (List.mem_cons_of_mem c hx)
    refine ⟨k', pkt :: rsts, bind_eq_ok.mpr ⟨_, hone, hfold⟩, ?_, .cons hpc ?_, ?_⟩
    · exact ((Removes.one k c _).trans hrem).congr fun x => (List.contains_cons).symm
    · have hne : ∀ x ∈ cs, x ≠ c := fun x hx heq => hc (heq ▸ hx)
      refine ((List.forall₂_and_left cs rsts).mpr ⟨hne, hall⟩).imp fun x pkt hx => ?_
      rw [← hsame x hx.1]
      exact hx.2
    · rw [hout]
      exact List.append_assoc ..

theorem mem_handshakingOn_iff {ready : List Fd} {c : Fd} :
    c ∈ k.handshakingOn fd ready loc ↔ c ≠ fd ∧ c ∉ ready ∧ ∃ st key, k.lookup c = some st
      ∧ st.Received ∧ st.bound = some key ∧ key.localPort = loc.port
      ∧ (loc.ip.isUnspecified = true ∨ key.localAddr = loc.ip) := by
  unfold handshakingOn
  simp only [List.mem_map, List.mem_filter, Prod.exists, exists_and_right, exists_eq_right]
  constructor
  · rintro ⟨st, hmem, hp⟩
    rw [Bool.and_eq_true] at hp
    obtain ⟨hne, hp⟩ := hp
    split at hp
    · rename_i t key ht hb
      simp only [Bool.not_eq_true', Bool.or_eq_false_iff, beq_eq_false_iff_ne,
        List.contains_eq_mem, decide_eq_false_iff_not] at hne
      simp only [Bool.and_eq_true, Bool.or_eq_true, beq_iff_eq] at hp
      exact ⟨hne.1, hne.2, st, key, IndexMap.mem_entries.mp hmem, ⟨t, ht, hp.1.1⟩, hb, hp.1.2, hp.2⟩
    · cases hp
  · rintro ⟨hne, hq, st, key, hst, ⟨t, ht, hs⟩, hb, hport, haddr⟩
    refine ⟨st, IndexMap.mem_entries.mpr hst, ?_⟩
    simp [hne, hq, ht, hb, hs, hport, haddr]

/-- The children a closing listener collects. -/
def collected (k : Kernel) (fd : Fd) (key : BindKey) : List Fd :=
  k.sockets.ready fd ++ k.handshakingOn fd (k.sockets.ready fd) key.endpoint

/-- **What closing a listener does**: what it collects goes, and it goes itself. -/
theorem close_listener (ht : k.Tidy own fun _ => True) {l : ListenState} {key : BindKey}
    (hst : k.lookup fd = some st) (hl : st.listen = some l) (hb : st.bound = some key) :
    ∃ k' rsts, k.close fd = .ok k'
      ∧ Removes (fun c => (k.collected fd key).contains c || c == fd) k k'
      ∧ (k.collected fd key).Nodup ∧ (∀ c ∈ k.collected fd key, c ≠ fd ∧ k.lookup c ≠ none)
      ∧ List.Forall₂ (fun c pkt => k.resetPacket c = some pkt) (k.collected fd key) rsts
      ∧ k'.outbound = k.outbound ++ rsts := by
  have hready : k.sockets.ready fd = l.ready := by
    rw [SocketTable.ready, show k.sockets.get fd = some st from hst, Option.bind_some, hl]
  have hfit := ht.socket fd st hst
  have hlisten := hfit.listen (by rw [hl]; exact Option.some_ne_none l)
  have htcb : st.tcb = none := by
    by_contra ht'
    rw [(hfit.tcb ht').2.2] at hl
    cases hl
  -- what is collected has a control block, and a place to send its RST from
  have hconn : ∀ c ∈ k.collected fd key, ∃ cst t, k.lookup c = some cst ∧ cst.tcb = some t := by
    intro c hc
    rcases List.mem_append.mp hc with hc | hc
    · obtain ⟨-, cst, hcst, -, t, ht', -⟩ := ht.waiting c ⟨fd, trivial, hc⟩
      exact ⟨cst, t, hcst, ht'⟩
    · obtain ⟨-, -, cst, ckey, hcst, ⟨t, ht', -⟩, -⟩ := mem_handshakingOn_iff.mp hc
      exact ⟨cst, t, hcst, ht'⟩
  have hpkt : ∀ c ∈ k.collected fd key, ∃ pkt, k.resetPacket c = some pkt := by
    intro c hc
    obtain ⟨cst, t, hcst, ht'⟩ := hconn c hc
    obtain ⟨ckey, hcb, -⟩ := ht.endpoint hcst ht'
    refine ⟨⟨ckey.localAddr, t.peer.ip, 64, .tcp (t.rstSegment ckey.endpoint t.peer)⟩, ?_⟩
    simp only [resetPacket, hcst, ht', hcb]
  have hnodup : (k.collected fd key).Nodup := by
    refine List.nodup_append'.mpr ⟨ht.queue fd, ?_, fun c hc hc' => ?_⟩
    · exact k.sockets.sockets.nodup.sublist (List.filter_sublist.map Prod.fst)
    · exact (mem_handshakingOn_iff.mp hc').2.1 hc
  obtain ⟨k', rsts, hfold, hrem, hall, hout⟩ := resetChildren_removes hnodup hpkt
  have hclose : k.onClose fd = .ok (k', true) := by
    unfold onClose
    rw [hst]
    dsimp only
    rw [hlisten.1, htcb, hl]
    dsimp only
    refine bind_eq_ok.mpr ⟨key.endpoint, ?_, bind_eq_ok.mpr ⟨k', ?_, rfl⟩⟩
    · rw [boundEndpoint, hb]
      rfl
    · rw [← hready]
      exact hfold
  refine ⟨k'.removeSocket fd, rsts, bind_eq_ok.mpr ⟨_, hclose, rfl⟩,
    hrem.trans (Removes.one k' fd k'.outbound), hnodup, fun c hc => ?_, hall, hout⟩
  obtain ⟨cst, t, hcst, ht'⟩ := hconn c hc
  constructor
  · rintro rfl
    cases hst.symm.trans hcst
    cases htcb.symm.trans ht'
  · rw [hcst]
    exact Option.some_ne_none cst

/-- Some child in its handshake has the port of the listener and the other address family. -/
def OtherFamilyWaits (k : Kernel) (key : BindKey) : Prop :=
  ∃ c st ckey, k.lookup c = some st ∧ st.Received ∧ st.bound = some ckey
    ∧ ckey.localPort = key.localPort ∧ ckey.domain ≠ key.domain

theorem unspecifiedLike_of_domain {a b : IpAddr} (ha : a.isUnspecified = true)
    (h : domainOf a = domainOf b) : a = b.unspecifiedLike := by
  cases a <;> cases b <;> simp_all [domainOf, IpAddr.isIpv4, IpAddr.isUnspecified,
    IpAddr.unspecifiedLike, IpAddr.unspecified4, IpAddr.unspecified6]

/-- **What is collected against what should be**: they differ in the children of the other family,
for a listener on the wildcard. -/
theorem collected_iff (ht : k.Tidy own fun _ => True) (he : k.Exclusive) {l : ListenState}
    {key : BindKey} (hst : k.lookup fd = some st) (hl : st.listen = some l)
    (hb : st.bound = some key) :
    (∀ c, ((k.collected fd key).contains c || c == fd) = k.closesWith fd c) ↔
      ¬ (key.localAddr.isUnspecified = true ∧ k.OtherFamilyWaits key) := by
  have hdom := ((ht.socket fd st hst).key key hb).2.2
  have hlnone : st.listen ≠ none := by
    rw [hl]
    exact Option.some_ne_none l
  -- a child of the listener, by its address
  have hchild : ∀ c, k.ChildOf fd c ↔ ∃ cst ckey, k.lookup c = some cst ∧ cst.Received
      ∧ cst.bound = some ckey ∧ ckey.localPort = key.localPort ∧ ckey.domain = key.domain
      ∧ (key.localAddr.isUnspecified = true ∨ ckey.localAddr = key.localAddr) := by
    intro c
    constructor
    · rintro ⟨cst, ckey, hcst, hr, hcb, st', l', key', hst', hl', hb', h1, h2, h3⟩
      cases hst.symm.trans hst'
      cases hb.symm.trans hb'
      have hcdom := ((ht.socket c cst hcst).key ckey hcb).2.2
      refine ⟨cst, ckey, hcst, hr, hcb, h2.symm, hcdom.trans h1.symm, ?_⟩
      rcases h3 with h3 | h3
      · exact Or.inr h3.symm
      · rw [h3]
        exact Or.inl (isUnspecified_unspecifiedLike _)
    · rintro ⟨cst, ckey, hcst, hr, hcb, h1, h2, h3⟩
      have hcdom := ((ht.socket c cst hcst).key ckey hcb).2.2
      refine ⟨cst, ckey, hcst, hr, hcb, st, l, key, hst, hl, hb, h2.symm.trans hcdom, h1.symm, ?_⟩
      rcases h3 with h3 | h3
      · exact Or.inr (unspecifiedLike_of_domain h3 (hdom.symm.trans (h2.symm.trans hcdom)))
      · exact Or.inl h3.symm
  -- the two sets, as propositions
  have hleft : ∀ c, ((k.collected fd key).contains c || c == fd) = true ↔
      c ∈ k.sockets.ready fd ∨ c = fd
        ∨ c ∈ k.handshakingOn fd (k.sockets.ready fd) key.endpoint := by
    intro c
    simp only [collected, Bool.or_eq_true, List.contains_iff_mem, List.mem_append, beq_iff_eq]
    exact or_assoc.trans (or_congr_right or_comm)
  have hright : ∀ c, k.closesWith fd c = true ↔
      c ∈ k.sockets.ready fd ∨ c = fd ∨ k.ChildOf fd c := by
    intro c
    simp only [closesWith, Bool.or_eq_true, List.contains_iff_mem, beq_iff_eq, isChildOf_iff ht he]
    exact or_assoc.trans or_left_comm
  rw [forall_congr' fun c => Bool.eq_iff_iff.trans (iff_congr (hleft c) (hright c))]
  constructor
  · rintro hall ⟨hwild, c, cst, ckey, hcst, hr, hcb, hport, hne⟩
    obtain ⟨t, htcb, hs⟩ := hr
    obtain ⟨-, hnq⟩ := SocketTable.Tidy.of_received ht hcst htcb hs
    have hcf : c ≠ fd := by
      rintro rfl
      cases hst.symm.trans hcst
      exact hlnone ((ht.socket c st hst).tcb (by rw [htcb]; exact Option.some_ne_none t)).2.2
    have hq : c ∉ k.sockets.ready fd := fun hq => hnq ⟨fd, trivial, hq⟩
    have hmem : c ∈ k.handshakingOn fd (k.sockets.ready fd) key.endpoint :=
      mem_handshakingOn_iff.mpr ⟨hcf, hq, cst, ckey, hcst, ⟨t, htcb, hs⟩, hcb, hport, Or.inl hwild⟩
    rcases (hall c).mp (Or.inr (Or.inr hmem)) with h | h | h
    · exact hq h
    · exact hcf h
    · obtain ⟨cst', ckey', hcst', -, hcb', -, hd, -⟩ := (hchild c).mp h
      cases hcst.symm.trans hcst'
      cases hcb.symm.trans hcb'
      exact hne hd
  · intro hnot c
    constructor
    · rintro (h | h | h)
      · exact Or.inl h
      · exact Or.inr (Or.inl h)
      · obtain ⟨-, -, cst, ckey, hcst, hr, hcb, hport, haddr⟩ := mem_handshakingOn_iff.mp h
        refine Or.inr (Or.inr ((hchild c).mpr ⟨cst, ckey, hcst, hr, hcb, hport, ?_, haddr⟩))
        rcases haddr with hwild | heq
        · by_contra hne
          exact hnot ⟨hwild, c, cst, ckey, hcst, hr, hcb, hport, hne⟩
        · rw [((ht.socket c cst hcst).key ckey hcb).2.2, hdom]
          exact congrArg domainOf heq
    · rintro (h | h | h)
      · exact Or.inl h
      · exact Or.inr (Or.inl h)
      · obtain ⟨cst, ckey, hcst, hr, hcb, hport, -, haddr⟩ := (hchild c).mp h
        by_cases hcf : c = fd
        · exact Or.inr (Or.inl hcf)
        · by_cases hq : c ∈ k.sockets.ready fd
          · exact Or.inl hq
          · exact Or.inr (Or.inr (mem_handshakingOn_iff.mpr
              ⟨hcf, hq, cst, ckey, hcst, hr, hcb, hport, haddr⟩))

theorem lookup_of_closesWith (ht : k.Tidy own fun _ => True) (hst : k.lookup fd = some st) {c : Fd}
    (h : k.closesWith fd c = true) : k.lookup c ≠ none := by
  simp only [closesWith, Bool.or_eq_true, List.contains_iff_mem, beq_iff_eq] at h
  rcases h with (rfl | hq) | hc
  · rw [hst]
    exact Option.some_ne_none st
  · obtain ⟨-, cst, hcst, -⟩ := ht.waiting c ⟨fd, trivial, hq⟩
    exact fun hnone => Option.some_ne_none cst (hcst.symm.trans hnone)
  · intro hnone
    rw [isChildOf, hnone] at hc
    cases hc

/-- **Closing touches only its own** when what is collected is what should go. -/
theorem closesItsOwn_iff (ht : k.Tidy own fun _ => True) (he : k.Exclusive) {l : ListenState}
    {key : BindKey} (hst : k.lookup fd = some st) (hl : st.listen = some l)
    (hb : st.bound = some key) : k.ClosesItsOwn fd ↔
      ¬ (key.localAddr.isUnspecified = true ∧ k.OtherFamilyWaits key) := by
  rw [← collected_iff ht he hst hl hb]
  obtain ⟨k', rsts, hclose, hrem, hnodup, hpresent, hall, hout⟩ := close_listener ht hst hl hb
  constructor
  · rintro ⟨k1, -, -, hclose1, hrem1, -⟩ c
    cases hclose.symm.trans hclose1
    -- the socket is gone from the new table, or it is not
    have hboth := (hrem.lookup c).symm.trans (hrem1.lookup c)
    have hgone : ((k.collected fd key).contains c || c == fd) = true → k.lookup c ≠ none := by
      intro h
      simp only [Bool.or_eq_true, List.contains_iff_mem, beq_iff_eq] at h
      rcases h with hc | rfl
      · exact (hpresent c hc).2
      · rw [hst]
        exact Option.some_ne_none st
    rw [Bool.eq_iff_iff]
    constructor
    · intro h
      by_contra hn
      rw [if_pos h, if_neg hn] at hboth
      exact hgone h hboth.symm
    · intro h
      by_contra hn
      rw [if_neg hn, if_pos h] at hboth
      exact lookup_of_closesWith ht hst h hboth
  · intro heq
    refine ⟨k', k.collected fd key, rsts, hclose, hrem.congr heq, hnodup, fun c => ?_, hall, hout⟩
    rw [← heq c]
    simp only [Bool.or_eq_true, List.contains_iff_mem, beq_iff_eq]
    constructor
    · exact fun hc => ⟨(hpresent c hc).1, Or.inl hc⟩
    · exact fun hc => hc.2.resolve_right hc.1

end Kernel

namespace Host

theorem new_exclusive (cfg : KernelConfig) (addrs : List IpAddr) :
    (Host.new cfg addrs).kernel.Exclusive := by
  intro g g' st st' l l' key key' hg
  rw [new_lookup] at hg
  cases hg

/-- **Closing a listener touches only its own children**, in every state that a host can reach,
exactly when the listener is bound to one address, or no child of the other family is in its
handshake on the port. -/
theorem closes_its_own_iff (cfg : KernelConfig) (addrs : List IpAddr) (ops : List ShimOp) {h : Host}
    (hrun : (Host.new cfg addrs).run ops = .ok h) {fd : Fd} {st : Socket}
    (hst : h.kernel.lookup fd = some st) (hl : st.listen.isSome = true) :
    ∃ key, st.bound = some key ∧ (h.kernel.ClosesItsOwn fd ↔
      ¬ (key.localAddr.isUnspecified = true ∧ h.kernel.OtherFamilyWaits key)) := by
  obtain ⟨hh, he⟩ := run_exclusive (new_tidy cfg addrs) (new_exclusive cfg addrs) hrun
  obtain ⟨l, hl⟩ := Option.isSome_iff_exists.mp hl
  have hlisten := (hh.socket fd st hst).listen (by rw [hl]; exact Option.some_ne_none l)
  obtain ⟨key, hb⟩ := Option.ne_none_iff_exists'.mp hlisten.2.1
  exact ⟨key, hb, Kernel.closesItsOwn_iff hh he hst hl hb⟩

/-- A host with an address of each family. -/
def bothFamilies : Host := Host.new .default [.v4 0x0A000001, .v6 0x20]

/-- One listener on `0.0.0.0`, one at the IPv6 address, and a SYN for the second. -/
def bothOps : List ShimOp :=
  [.listen ⟨.v4 0, 80⟩, .listen ⟨.v6 0x20, 80⟩,
    .deliver ⟨.v6 0x21, .v6 0x20, 64, .tcp ⟨1000, 80, 5, 0, { syn := true }, 100, []⟩⟩]

/-- Closing the listener at the IPv6 address resets its child. -/
theorem closes_its_own_v6 :
    ∃ h, bothFamilies.run bothOps = .ok h ∧ h.kernel.isChildOf 2 3 = true
      ∧ h.kernel.ClosesItsOwn 2 := by
  have hrun : (bothFamilies.run bothOps).toOption.bind (fun h => (h.kernel.lookup 2).bind fun st =>
      st.bound.map fun key => (st.listen.isSome, key.localAddr.isUnspecified,
        h.kernel.isChildOf 2 3)) = some (true, false, true) := by
    decide +kernel
  obtain ⟨h, hh, hrun⟩ := Option.bind_eq_some_iff.mp hrun
  obtain ⟨st, hst, hrun⟩ := Option.bind_eq_some_iff.mp hrun
  obtain ⟨key, hb, hrun⟩ := Option.map_eq_some_iff.mp hrun
  simp only [Prod.mk.injEq] at hrun
  obtain ⟨hl, haddr, hchild⟩ := hrun
  have hok := toOption_eq_some.mp hh
  refine ⟨h, hok, hchild, ?_⟩
  obtain ⟨key', hb', hiff⟩ := closes_its_own_iff .default _ bothOps hok hst hl
  cases hb.symm.trans hb'
  refine hiff.mpr fun hwild => ?_
  rw [haddr] at hwild
  cases hwild.1

/-- **The listener on `0.0.0.0` takes the other one's child along.** -/
theorem other_family_is_reset :
    ∃ h st, bothFamilies.run bothOps = .ok h ∧ h.kernel.lookup 1 = some st
      ∧ st.listen.isSome = true ∧ h.kernel.isChildOf 2 3 = true ∧ ¬ h.kernel.ClosesItsOwn 1 := by
  have hrun : (bothFamilies.run bothOps).toOption.bind (fun h => (h.kernel.lookup 1).bind fun st =>
      (h.kernel.close 1).toOption.map fun k => (st.listen.isSome, h.kernel.isChildOf 2 3,
        h.kernel.closesWith 1 3, (h.kernel.lookup 3).isSome, (k.lookup 3).isSome))
        = some (true, true, false, true, false) := by
    decide +kernel
  obtain ⟨h, hh, hrun⟩ := Option.bind_eq_some_iff.mp hrun
  obtain ⟨st, hst, hrun⟩ := Option.bind_eq_some_iff.mp hrun
  obtain ⟨k, hk, hrun⟩ := Option.map_eq_some_iff.mp hrun
  simp only [Prod.mk.injEq] at hrun
  obtain ⟨hl, hchild, hstays, hbefore, hafter⟩ := hrun
  refine ⟨h, st, toOption_eq_some.mp hh, hst, hl, hchild, ?_⟩
  rintro ⟨k', -, -, hclose, hrem, -⟩
  cases (toOption_eq_some.mp hk).symm.trans hclose
  have hthree := hrem.lookup 3
  rw [hstays, if_neg Bool.false_ne_true] at hthree
  rw [hthree, hbefore] at hafter
  cases hafter

end Host

end Turmoil.Net
