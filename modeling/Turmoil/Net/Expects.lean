/-
# No expectation of the kernel fails

Every `expect` and `unwrap` of the kernel looks up what an index promised.  `Safe` is a Hoare rule
for the kernel's functions: no expectation fails, and what is returned satisfies a condition.  With
the invariant of `Net.Table` as the condition it goes through the two ends of the stack here, from
the walk over a binding list to a whole `egress`; the calls of the application are in
`Net.Consistent`.

Failed assertions, ranges and loops are another matter: `Safe` says nothing about them.
-/
import Turmoil.Net.Table

namespace Turmoil.Net

/-! ## 1. Calls in which no expectation fails -/

/-- No `expect` fails, and what is returned satisfies `post`. -/
def Safe {α : Type} (post : α → Prop) : Except Panic α → Prop
  | .ok a => post a
  | .error (.expect _) => False
  | .error _ => True

namespace Safe

variable {α β : Type} {p : α → Prop} {q : β → Prop} {x : Except Panic α}

theorem bind {f : α → Except Panic β} (hx : Safe p x) (hf : ∀ a, p a → Safe q (f a)) :
    Safe q (x >>= f) := by
  cases x with
  | ok a => exact hf a hx
  | error e => cases e <;> exact hx

/-- As `bind`, with what was returned in hand. -/
theorem bindEq {f : α → Except Panic β} (hx : Safe p x)
    (hf : ∀ a, x = .ok a → p a → Safe q (f a)) : Safe q (x >>= f) := by
  cases x with
  | ok a => exact hf a rfl hx
  | error e => cases e <;> exact hx

theorem and {q : α → Prop} (hx : Safe p x) (hx' : Safe q x) : Safe (fun a => p a ∧ q a) x := by
  cases x with
  | ok a => exact ⟨hx, hx'⟩
  | error e => cases e <;> exact hx

/-- What is returned can be looked at apart. -/
theorem returning {q : α → Prop} (hx : Safe p x) (h : ∀ a, x = .ok a → q a) : Safe q x := by
  cases x with
  | ok a => exact h a rfl
  | error e => cases e <;> exact hx

theorem mono {q : α → Prop} (hx : Safe p x) (h : ∀ a, p a → q a) : Safe q x := by
  cases x with
  | ok a => exact h a hx
  | error e => cases e <;> exact hx

theorem expect {o : Option α} {a : α} (what : String) (h : o = some a) (hp : p a) :
    Safe p (Net.expect o what) := by
  rw [h]
  exact hp

theorem of_ok {a : α} (hx : Safe p x) (h : x = .ok a) : p a := by
  rw [h] at hx
  exact hx

theorem returns {a : α} (h : x = .ok a) : Safe (fun b => b = a) x := by
  rw [h]
  exact rfl

/-- What `Safe` denies. -/
theorem ne_expect (hx : Safe p x) (what : String) : x ≠ .error (.expect what) := by
  rintro rfl
  exact hx

/-- The loop rule. -/
theorem foldlM {f : β → α → Except Panic β} : ∀ {l : List α} {b : β},
    (∀ a ∈ l, ∀ b, q b → Safe q (f b a)) → q b → Safe q (l.foldlM f b)
  | [], _, _, hb => hb
  | a :: _, b, hf, hb => (hf a List.mem_cons_self b hb).bind fun _ hb' =>
      foldlM (fun a' ha' => hf a' (List.mem_cons_of_mem a ha')) hb'

end Safe

/-! ## 2. What happens to a control block -/

/-- A control block of the same connection, no earlier in its life. -/
structure Tcb.Continues (t t' : Tcb) : Prop where
  peer : t'.peer = t.peer
  past : t.state.handshake = false → t'.state.handshake = false
  received : t'.state = .synReceived → t.state = .synReceived

namespace Tcb

variable {t t' : Tcb}

theorem Continues.of_state (hp : t'.peer = t.peer) (hs : t'.state = t.state) : t.Continues t' :=
  ⟨hp, fun h => by rwa [hs], fun h => by rwa [hs] at h⟩

theorem Continues.refl (t : Tcb) : t.Continues t := .of_state rfl rfl

theorem Continues.trans {t'' : Tcb} (h : t.Continues t') (h' : t'.Continues t'') :
    t.Continues t'' :=
  ⟨h'.peer.trans h.peer, fun hs => h'.past (h.past hs), fun hs => h.received (h'.received hs)⟩

/-- The transitions of the data states stay among them. -/
theorem Continues.of_transition {g : TcpState → TcpState}
    (hg : g = TcpState.onFinAcked ∨ g = TcpState.onPeerFin ∨ g = TcpState.onShutdown)
    (hp : t'.peer = t.peer) (hs : t'.state = g t.state) : t.Continues t' := by
  refine ⟨hp, ?_, ?_⟩
  · rw [hs]
    rcases hg with rfl | rfl | rfl <;> cases t.state <;> decide
  · rw [hs]
    rcases hg with rfl | rfl | rfl <;> cases t.state <;> decide

theorem abort_continues (t : Tcb) (reason : AbortReason) : t.Continues (t.abort reason) :=
  ⟨rfl, fun _ => rfl, fun h => by cases h⟩

theorem shutWrite_continues (t : Tcb) : t.Continues t.shutWrite :=
  .of_transition (Or.inr (Or.inr rfl)) rfl rfl

theorem dropAcked_safe (buf : List UInt8) (n : UInt32) : Safe (fun _ => True) (dropAcked buf n) := by
  unfold dropAcked
  split
  · refine Safe.bind (p := fun _ => True) (q := fun _ => True) ?_ fun _ _ => trivial
    unfold splitTo
    split <;> trivial
  · trivial

theorem onAck_safe (t : Tcb) (s : TcpSegment) : Safe t.Continues (t.onAck s) := by
  unfold onAck
  split
  · refine Safe.bind (p := t.Continues) ?_ fun t' h => ?_
    · unfold takeAck
      dsimp only
      split
      · refine Safe.bind (dropAcked_safe _ _) fun rest _ => ?_
        by_cases hfin : t.acksFin s.ack = true
        · exact .of_transition (Or.inl rfl) rfl (if_pos hfin)
        · exact .of_state rfl (if_neg hfin)
      · exact .refl t
    · exact h.trans (.of_state rfl rfl)
  · exact .refl t

theorem handleEstablished_safe (cap : Nat) (t : Tcb) (s : TcpSegment) :
    Safe (fun r => t.Continues r.1) (t.handleEstablished cap s) := by
  refine Safe.bind (t.onAck_safe s) fun t1 h1 => ?_
  have h2 : t1.Continues (t1.onData cap s).1 := by
    unfold onData
    split
    · dsimp only
      split <;> exact .of_state rfl rfl
    · exact .refl t1
  have h3 : (t1.onData cap s).1.Continues ((t1.onData cap s).1.onFin s).1 := by
    unfold onFin
    split
    · exact .of_transition (Or.inr (Or.inl rfl)) rfl rfl
    · exact .refl _
  exact (h1.trans h2).trans h3

theorem pollSend_continues (cap : Nat) (t : Tcb) (buf : List UInt8) :
    t.Continues (t.pollSend cap buf).1 := by
  unfold pollSend
  split
  · exact .refl t
  · split
    · exact .refl t
    · split
      · exact .refl t
      · dsimp only
        split <;> exact .of_state rfl rfl

theorem pollShutdownWrite_continues (t : Tcb) : t.Continues t.pollShutdownWrite.1 := by
  unfold pollShutdownWrite
  split
  · exact .refl t
  · split
    · exact .refl t
    · exact t.shutWrite_continues

theorem pollRecvVectored_continues (cap : Nat) (t : Tcb) (lens : List Nat) :
    t.Continues (t.pollRecvVectored cap lens).1 := by
  unfold pollRecvVectored
  split
  · exact .refl t
  · split
    · split
      · exact .refl t
      · split <;> exact .refl t
    · exact .of_state rfl rfl

/-- `check_retx` counts, and changes no state. -/
theorem checkRetx_state (threshold max : Nat) (t : Tcb) :
    (t.checkRetx threshold max).1.peer = t.peer ∧ (t.checkRetx threshold max).1.state = t.state
      ∧ ((t.checkRetx threshold max).2 = .handshake → t.state.handshake = true) := by
  unfold checkRetx
  dsimp only
  split
  · exact ⟨rfl, rfl, fun h => by cases h⟩
  · split
    · exact ⟨rfl, rfl, fun h => by cases h⟩
    · split
      · rename_i hs
        exact ⟨rfl, rfl, fun _ => hs⟩
      · exact ⟨rfl, rfl, fun h => by cases h⟩

/-- Segmentation moves the next number to send, and no more. -/
theorem segmentStep_safe (cap mss : Nat) (loc : SocketAddr) (t : Tcb) :
    Safe (fun r => ∀ t' seg, r = some (t', seg) → t'.peer = t.peer ∧ t'.state = t.state)
      (t.segmentStep cap mss loc) := by
  unfold segmentStep
  dsimp only
  split
  · refine Safe.bind (p := fun _ => True) ?_ fun payload _ t' seg h => ?_
    · unfold slice
      split <;> trivial
    · cases h
      exact ⟨rfl, rfl⟩
  · split
    · intro t' seg h
      cases h
      exact ⟨rfl, rfl⟩
    · intro t' seg h
      cases h

theorem segmentLoop_safe (cap mss : Nat) (loc : SocketAddr) (fuel : Nat) : ∀ t : Tcb,
    Safe (fun r => r.1.peer = t.peer ∧ r.1.state = t.state) (t.segmentLoop cap mss loc fuel) := by
  induction fuel with
  | zero => exact fun _ => trivial
  | succ fuel ih =>
    intro t
    refine Safe.bind (t.segmentStep_safe cap mss loc) fun r hr => ?_
    cases r with
    | none => exact ⟨rfl, rfl⟩
    | some p =>
      obtain ⟨t', seg⟩ := p
      obtain ⟨h1, h2⟩ := hr t' seg rfl
      exact Safe.bind (ih t') fun r h => ⟨h.1.trans h1, h.2.trans h2⟩

end Tcb

/-! ## 3. Inbound segments -/

/-- The invariant of a kernel's table. -/
def Kernel.Tidy (own : Fd → Option Handle) (live : Fd → Prop) (k : Kernel) : Prop :=
  k.sockets.Tidy own live

namespace Kernel

variable {own own' : Fd → Option Handle} {live live' : Fd → Prop} {k : Kernel} {fd : Fd}
  {st : Socket} {t t' : Tcb} {loc rem : SocketAddr} {s : TcpSegment}

/-- A connection, as the index and the table see it. -/
theorem Tidy.of_connection (h : k.Tidy own live)
    (hf : k.sockets.findConnection loc rem = some fd) :
    ∃ st t key, k.lookup fd = some st ∧ st.tcb = some t ∧ t.peer = rem ∧ st.bound = some key
      ∧ key.endpoint = loc := by
  obtain ⟨st, hst, htup⟩ := (h.indexed (loc, rem) fd).mp hf
  obtain ⟨key, t, hb, ht, hp⟩ := Socket.tuple?_eq_some.mp htup
  cases hp
  exact ⟨st, t, key, hst, ht, rfl, hb, rfl⟩

/-- A connection has a local address. -/
theorem Tidy.endpoint (h : k.Tidy own live) (hst : k.lookup fd = some st) (ht : st.tcb = some t) :
    ∃ key, st.bound = some key ∧ boundEndpoint st = .ok key.endpoint := by
  obtain ⟨-, hb, -⟩ := (h.socket fd st hst).tcb (by rw [ht]; exact Option.some_ne_none t)
  obtain ⟨key, hb⟩ := Option.ne_none_iff_exists'.mp hb
  refine ⟨key, hb, ?_⟩
  rw [boundEndpoint, hb]
  rfl

/-- The fit of a socket whose control block went on. -/
theorem fit_setTcb {handle : Option Handle} (hfit : st.Fit handle) (ht : st.tcb = some t)
    (hc : t.Continues t') : ({ st with tcb := some t' } : Socket).Fit handle where
  key := hfit.key
  tcb _ := hfit.tcb (by rw [ht]; exact Option.some_ne_none t)
  listen := hfit.listen
  received t1 h1 hs := by
    cases h1
    exact hfit.received t ht (hc.received hs)
  serves hd hh := by
    obtain ⟨hclosed, hserves⟩ := hfit.serves hd hh
    refine ⟨hclosed, ?_⟩
    cases hd with
    | listener => exact hserves
    | connecting peer =>
      obtain ⟨h1, h2, h3, -, h5⟩ := hserves
      refine ⟨h1, h2, h3, fun h => (Option.some_ne_none t' h).elim, fun t1 h => ?_⟩
      cases h
      exact fun hs => h5 t ht (hc.received hs)
    | stream =>
      obtain ⟨t1, h1, h2⟩ := hserves
      cases ht.symm.trans h1
      exact ⟨t', rfl, hc.past h2⟩
    | udp => exact hserves

/-- **A control block goes on**: the table stays in order. -/
theorem Tidy.setTcb (h : k.Tidy own live) (hst : k.lookup fd = some st) (ht : st.tcb = some t)
    (hc : t.Continues t') : (k.setTcb fd t').Tidy own live := by
  have hfit := fit_setTcb (h.socket fd st hst) ht hc
  refine SocketTable.Tidy.touch h hst (fun _ _ => rfl) rfl rfl ?_ hfit fun hq => ?_
  · simp [Socket.tuple?, ht, hc.peer]
  · obtain ⟨h1, st', hst', hclosed, t1, ht1, hs⟩ := h.waiting fd hq
    cases hst.symm.trans hst'
    cases ht.symm.trans ht1
    exact ⟨h1, hclosed, t', rfl, hc.past hs⟩

theorem sockets_emitAll (k : Kernel) (src dst : SocketAddr) (segs : List TcpSegment) :
    (k.emitAll src dst segs).sockets = k.sockets := by
  induction segs generalizing k with
  | nil => rfl
  | cons seg segs ih => exact ih _

theorem abortWith_safe (h : k.Tidy own live) (hst : k.lookup fd = some st) (reason : AbortReason) :
    Safe (Kernel.Tidy own live) (k.abortWith fd reason) := by
  refine Safe.bind (Safe.expect (p := fun _ => True) _ hst trivial) fun _ _ => ?_
  cases ht : st.tcb with
  | some t =>
    have := h.setTcb hst ht (t.abort_continues reason)
    rw [Kernel.setTcb, modifySocket, SocketTable.modify] at this
    rw [pure, modifySocket, SocketTable.modify, IndexMap.modify_congr]
    · exact this
    · intro v hv
      cases hst.symm.trans hv
      simp [ht]
  | none =>
    rw [pure, modifySocket, SocketTable.modify, IndexMap.modify_self]
    · exact h
    · intro v hv
      cases hst.symm.trans hv
      rw [ht, Option.map_none, ← ht]

/-- What a listener found for an address is. -/
def ListensAt (k : Kernel) (loc : SocketAddr) (g : Fd) : Prop :=
  ∃ st l key, k.lookup g = some st ∧ st.listen = some l ∧ st.bound = some key
    ∧ key.domain = domainOf loc.ip ∧ key.localPort = loc.port
    ∧ (key.localAddr = loc.ip ∨ key.localAddr = loc.ip.unspecifiedLike)

theorem firstListener_safe {p : Fd → Prop} : ∀ {fds : List Fd},
    (∀ g ∈ fds, ∃ st, k.lookup g = some st ∧ (st.listen ≠ none → p g)) →
    Safe (fun o => ∀ g, o = some g → p g) (findListener.firstListener k fds)
  | [], _ => fun _ h => by cases h
  | g :: fds, hg => by
    obtain ⟨st, hst, hp⟩ := hg g List.mem_cons_self
    refine Safe.bind (Safe.expect (p := fun st' => st' = st) _ hst rfl) fun st' hst' => ?_
    subst hst'
    split
    · rename_i hl
      intro g' hg'
      cases hg'
      exact hp fun hnone => by rw [hnone] at hl; cases hl
    · exact firstListener_safe fun g' hg' => hg g' (List.mem_cons_of_mem _ hg')

theorem findListener_safe (h : k.Tidy own live) (loc : SocketAddr) :
    Safe (fun o => ∀ g, o = some g → k.ListensAt loc g) (k.findListener loc) := by
  refine firstListener_safe fun g hg => ?_
  -- both binding lists hold sockets bound at the port, at the address or the wildcard
  have hkey : ∀ key : BindKey, key.domain = domainOf loc.ip → key.localPort = loc.port →
      (key.localAddr = loc.ip ∨ key.localAddr = loc.ip.unspecifiedLike) →
      g ∈ k.sockets.findByBind key →
      ∃ st, k.lookup g = some st ∧ (st.listen ≠ none → k.ListensAt loc g) := by
    intro key h1 h2 h3 hmem
    obtain ⟨st, hst, hb⟩ := (h.listed key g).mp hmem
    refine ⟨st, hst, fun hl => ?_⟩
    obtain ⟨l, hl⟩ := Option.ne_none_iff_exists'.mp hl
    exact ⟨st, l, key, hst, hl, hb, h1, h2, h3⟩
  rcases List.mem_append.mp hg with hg | hg
  · exact hkey _ rfl rfl (Or.inl rfl) hg
  · exact hkey _ rfl rfl (Or.inr rfl) hg

/-- The queue a child is put in, whoever it is. -/
theorem pushToListener_cases (h : k.Tidy own live) (child : Fd) (loc : SocketAddr) :
    Safe (fun k' => (k' = k ∧ k.findListener loc = .ok none) ∨ ∃ g, k.ListensAt loc g
      ∧ k' = k.modifySocket g fun st =>
        { st with listen := st.listen.map fun l => { l with ready := l.ready ++ [child] } })
      (k.pushToListener child loc) := by
  refine Safe.bindEq (findListener_safe h loc) fun o heq ho => ?_
  cases o with
  | none => exact Or.inl ⟨rfl, heq⟩
  | some g =>
    obtain ⟨st, l, key, hst, hl, -⟩ := id (ho g rfl)
    refine Safe.bind (Safe.expect (p := fun st' => st' = st) _ hst rfl) fun st' hst' => ?_
    subst hst'
    exact Safe.bind (Safe.expect (p := fun _ => True) _ hl trivial) fun _ _ =>
      Or.inr ⟨g, ho g rfl, rfl⟩

/-- A child goes to the back of a queue. -/
theorem pushToListener_safe (h : k.Tidy own live) {child : Fd} (hnone : own child = none)
    (hst : k.lookup child = some st) (hw : st.Waiting) (hq : ¬ k.sockets.Queued (fun _ => True) child)
    (loc : SocketAddr) : Safe (Kernel.Tidy own live) (k.pushToListener child loc) := by
  refine (pushToListener_cases h child loc).mono fun k' hk' => ?_
  rcases hk' with ⟨rfl, -⟩ | ⟨g, ⟨st', l, key, hlst, hl, hb, -⟩, rfl⟩
  · exact h
  · have hlnone : st'.listen ≠ none := by
      rw [hl]
      exact Option.some_ne_none l
    have hfit := h.socket g st' hlst
    have htcb : st'.tcb = none := by
      by_contra ht
      exact hlnone (hfit.tcb ht).2.2
    have hne : child ≠ g := by
      rintro rfl
      cases hlst.symm.trans hst
      obtain ⟨-, t, ht, -⟩ := hw
      rw [htcb] at ht
      cases ht
    have hready : k.sockets.ready g = l.ready := by
      rw [SocketTable.ready, show k.sockets.get g = some st' from hlst, Option.bind_some, hl]
    have hready' : (k.sockets.modify g fun st =>
        { st with listen := st.listen.map fun l => { l with ready := l.ready ++ [child] } }).ready g
        = k.sockets.ready g ++ [child] := by
      rw [hready, SocketTable.ready, SocketTable.get_modify, if_pos rfl,
        show k.sockets.get g = some st' from hlst, Option.map_some, Option.bind_some, hl]
      rfl
    have hfresh : child ∉ k.sockets.ready g := fun hc => hq ⟨g, trivial, hc⟩
    refine SocketTable.Tidy.modify h hlst (fun _ _ => rfl) rfl rfl ?_ (fun hqg => ?_) ?_ ?_
    · refine ⟨hfit.key, fun ht => absurd htcb ht, fun _ => hfit.listen hlnone, hfit.received,
        fun hd hh => ?_⟩
      obtain ⟨hclosed, hserves⟩ := hfit.serves hd hh
      refine ⟨hclosed, ?_⟩
      cases hd with
      | listener => exact fun hmap => hlnone (Option.map_eq_none_iff.mp hmap)
      | connecting peer => exact absurd hserves.2.2.1 hlnone
      | stream => exact hserves
      | udp => exact hserves
    · obtain ⟨h1, lst', hlst', -, t, ht, -⟩ := h.waiting g hqg
      cases hlst.symm.trans hlst'
      rw [htcb] at ht
      cases ht
    · rw [hready']
      exact (h.queue g).append (List.nodup_singleton child) (List.disjoint_singleton.mpr hfresh)
    · rw [hready']
      intro c hc
      rcases List.mem_append.mp hc with hc | hc
      · exact Or.inl hc
      · cases List.mem_singleton.mp hc
        exact Or.inr ⟨hne, fun hx => hq (hx.imp fun _ => And.imp_left fun _ => trivial), hnone, st, hst, hw⟩

/-- **A segment the index gives to a connection.** -/
theorem handleOnConnection_safe (h : k.Tidy own fun _ => True)
    (hf : k.sockets.findConnection loc rem = some fd) (s : TcpSegment) :
    Safe (Kernel.Tidy own fun _ => True) (k.handleOnConnection fd loc rem s) := by
  obtain ⟨st, t, key, hst, ht, hpeer, hb, hloc⟩ := h.of_connection hf
  have hdata : Safe (Kernel.Tidy own fun _ => True) (k.handleEstablished fd loc rem t s) := by
    refine Safe.bind (t.handleEstablished_safe k.cfg.recvBufCap s) fun r hr => ?_
    obtain ⟨t', sendAck⟩ := r
    cases sendAck <;> exact h.setTcb hst ht hr
  unfold handleOnConnection
  split
  · exact abortWith_safe h hst .reset
  · refine Safe.bind (Safe.expect (p := fun st' => st' = st) _ hst rfl) fun st' hst' => ?_
    subst hst'
    refine Safe.bind (Safe.expect (p := fun t' => t' = t) _ ht rfl) fun t' ht' => ?_
    subst ht'
    split
    · -- the client
      rename_i hstate
      split
      · refine h.setTcb hst ht ⟨rfl, fun hs => ?_, fun hs => ?_⟩
        · rw [hstate] at hs
          cases hs
        · cases hs
      · exact h
    · -- the server: the child joins the queue, which it was not in
      rename_i hstate
      split
      · split
        · exact h
        · obtain ⟨hnone, hnq⟩ := SocketTable.Tidy.of_received h hst ht hstate
          have hc : t'.Continues (t'.onHandshakeAck s) := by
            refine ⟨rfl, fun hs => ?_, fun hs => ?_⟩
            · rw [hstate] at hs
              cases hs
            · cases hs
          have hst2 : (k.setTcb fd (t'.onHandshakeAck s)).lookup fd
              = some { st' with tcb := some (t'.onHandshakeAck s) } := by
            rw [lookup_setTcb, if_pos rfl, hst]
            rfl
          refine pushToListener_safe (h.setTcb hst ht hc) hnone hst2
            ⟨(h.socket fd st' hst).received t' ht hstate, _, rfl, rfl⟩ ?_ loc
          rintro ⟨g, -, hg⟩
          refine hnq ⟨g, trivial, ?_⟩
          have hready : (k.setTcb fd (t'.onHandshakeAck s)).sockets.ready g = k.sockets.ready g :=
            SocketTable.ready_modify hst rfl g
          rwa [hready] at hg
      · exact h
    · exact hdata
    · exact hdata
    · exact hdata
    · exact hdata
    · exact hdata
    · exact hdata
    · exact h

/-- **A SYN for a listener**: a new socket, bound, connected, and nobody's. -/
theorem acceptSyn_safe (h : k.Tidy own live) {g : Fd} (hg : k.ListensAt loc g)
    (hnone : k.sockets.findConnection loc rem = none) (s : TcpSegment) :
    Safe (Kernel.Tidy own live) (k.acceptSyn g loc rem s) := by
  obtain ⟨st, l, key, hst, hl, hb, hdom, -⟩ := hg
  refine Safe.bind (Safe.expect (p := fun st' => st' = st) _ hst rfl) fun st' hst' => ?_
  subst hst'
  refine Safe.bind (Safe.expect (p := fun l' => l' = l) _ hl rfl) fun l' hl' => ?_
  subst hl'
  split
  · exact h
  · -- the child is opened, bound where the SYN went, and connected
    have hty : st'.ty = .stream := ((h.socket g st' hst).listen (by rw [hl]; simp)).1
    have hdomain : st'.domain = domainOf loc.ip :=
      ((h.socket g st' hst).key key hb).1.symm.trans hdom
    obtain ⟨-, hfree⟩ := SocketTable.Tidy.next h
    have h1 := SocketTable.Tidy.opened h st'.domain st'.ty
    have hget1 : (k.sockets.insert (Socket.new st'.domain st'.ty)).1.get k.sockets.nextId
        = some (Socket.new st'.domain st'.ty) := by
      rw [SocketTable.get_insert, if_pos rfl]
    have hkey : ∀ key : BindKey, some ⟨st'.domain, st'.ty, loc.ip, loc.port⟩ = some key →
        key.domain = st'.domain ∧ key.ty = st'.ty ∧ key.domain = domainOf key.localAddr := by
      intro key hk
      cases hk
      exact ⟨rfl, rfl, hdomain⟩
    have hserves : ∀ (child : Socket) (handle : Handle), own k.sockets.nextId = some handle →
        child.fdClosed = false ∧ child.Serves handle := by
      intro child handle hh
      rw [hfree] at hh
      cases hh
    have h2 := h1.bound hget1 rfl ⟨st'.domain, st'.ty, loc.ip, loc.port⟩ (fun _ _ => rfl)
      ⟨hkey, fun ht => absurd rfl ht, fun hl => absurd rfl hl, fun _ ht => (by cases ht), hserves _⟩
    refine Safe.bind (p := fun _ => True)
      (Safe.expect (a := Socket.new st'.domain st'.ty) _ ?_ trivial) fun _ _ => ?_
    · exact hget1
    · unfold SocketTable.insertConnection
      split
      · trivial
      · have hget2 : (((k.sockets.insert (Socket.new st'.domain st'.ty)).1.insertBinding
            ⟨st'.domain, st'.ty, loc.ip, loc.port⟩ k.sockets.nextId).modify k.sockets.nextId
            fun st => { st with bound := some ⟨st'.domain, st'.ty, loc.ip, loc.port⟩ }).get
              k.sockets.nextId
            = some { Socket.new st'.domain st'.ty with
              bound := some ⟨st'.domain, st'.ty, loc.ip, loc.port⟩ } := by
          rw [SocketTable.get_modify, if_pos rfl]
          exact congrArg (Option.map _) hget1
        have h3 := h2.connected hget2 rfl (f := fun c => { c with
            peer := some rem
            tcb := some (Tcb.fresh .synReceived rem k.tcpIsn s.window (s.seq + 1)) })
          (p := (loc, rem)) hnone (fun _ _ => rfl) rfl rfl rfl
          ⟨hkey, fun _ => ⟨hty, Option.some_ne_none _, rfl⟩, fun hl => absurd rfl hl,
            fun _ _ _ => rfl, hserves _⟩
        rw [SocketTable.modify, SocketTable.modify, IndexMap.modify_modify] at h3
        exact h3

theorem tcpDeliver_safe (h : k.Tidy own fun _ => True) (pkt : Packet) (s : TcpSegment) :
    Safe (Kernel.Tidy own fun _ => True) (k.tcpDeliver pkt s) := by
  unfold tcpDeliver
  dsimp only
  split
  · rename_i fd hf
    exact handleOnConnection_safe h hf s
  · rename_i hnone
    split
    · refine Safe.bind (findListener_safe h _) fun o ho => ?_
      cases o with
      | none => exact h
      | some g => exact acceptSyn_safe h (ho g rfl) hnone s
    · split <;> exact h

theorem udpDeliver_safe (h : k.Tidy own live) (pkt : Packet) (d : UdpDatagram) :
    Safe (Kernel.Tidy own live) (k.udpDeliver pkt d) := by
  unfold udpDeliver
  dsimp only
  split
  · exact h
  · rename_i fd hfd
    -- the first of either binding list is live
    have hlive : ∃ key, fd ∈ k.sockets.findByBind key := by
      rw [Option.orElse_eq_orElse, Option.orElse_eq_or] at hfd
      rcases Option.or_eq_some_iff.mp hfd with hfd | ⟨-, hfd⟩
      · exact ⟨_, List.mem_of_mem_head? hfd⟩
      · exact ⟨_, List.mem_of_mem_head? hfd⟩
    obtain ⟨key, hmem⟩ := hlive
    obtain ⟨st, hst, -⟩ := (h.listed key fd).mp hmem
    refine Safe.bind (Safe.expect (p := fun st' => st' = st) _ hst rfl) fun st' hst' => ?_
    subst hst'
    split
    · exact h
    · have hfit := h.socket fd st' hst
      refine SocketTable.Tidy.touch h hst (fun _ _ => rfl) rfl rfl rfl
        ⟨hfit.key, hfit.tcb, hfit.listen, hfit.received, hfit.serves⟩ fun hq => ?_
      obtain ⟨h1, st1, hst1, hw⟩ := h.waiting fd hq
      cases hst.symm.trans hst1
      exact ⟨h1, hw⟩

theorem deliver_safe (h : k.Tidy own fun _ => True) (pkt : Packet) :
    Safe (Kernel.Tidy own fun _ => True) (k.deliver pkt) := by
  unfold deliver
  split
  · exact udpDeliver_safe h pkt _
  · exact tcpDeliver_safe h pkt _

/-! ## 4. The sweeps of `egress` -/

theorem tcb?_setTcb_isSome (k : Kernel) (fd g : Fd) (t : Tcb) (h : (k.tcb? g).isSome = true) :
    ((k.setTcb fd t).tcb? g).isSome = true := by
  unfold tcb? at h ⊢
  rw [lookup_setTcb]
  split
  · rename_i hg
    rw [hg] at h
    cases hst : k.lookup fd with
    | none =>
      rw [hst] at h
      cases h
    | some st => rfl
  · exact h

/-- A socket is in its handshake. -/
def Handshaking (k : Kernel) (fd : Fd) : Prop :=
  ∃ st t, k.lookup fd = some st ∧ st.tcb = some t ∧ t.state.handshake = true

/-- Counting goes over control blocks, and keeps their states. -/
theorem countAll_safe : ∀ {fds : List Fd} {k : Kernel}, k.Tidy own live →
    (∀ fd ∈ fds, (k.tcb? fd).isSome = true) →
    Safe (fun r => r.1.Tidy own live ∧ (∀ fd, (k.tcb? fd).isSome = true → (r.1.tcb? fd).isSome = true)
      ∧ (∀ fd, k.Handshaking fd → r.1.Handshaking fd) ∧ (∀ fd ∈ r.2.1, r.1.Handshaking fd)
      ∧ ∀ fd ∈ r.2.2, fd ∈ fds) (countAll k fds)
  | [], _, h, _ => ⟨h, fun _ h => h, fun _ h => h, fun _ h => (by cases h), fun _ h => (by cases h)⟩
  | fd :: fds, k, h, hfds => by
    have hsome := hfds fd List.mem_cons_self
    obtain ⟨t, ht⟩ := Option.isSome_iff_exists.mp hsome
    obtain ⟨st, hst, htcb⟩ := Option.bind_eq_some_iff.mp ht
    obtain ⟨hpeer, hstate, haction⟩ := t.checkRetx_state k.cfg.retxThreshold k.cfg.retxMax
    -- one count
    have hcount : Safe (fun r => r = (k.setTcb fd (t.checkRetx k.cfg.retxThreshold k.cfg.retxMax).1,
        (t.checkRetx k.cfg.retxThreshold k.cfg.retxMax).2)) (k.countRetx fd) := by
      refine Safe.bind (Safe.expect (p := fun t' => t' = t) _ ht rfl) fun t' ht' => ?_
      subst ht'
      exact rfl
    refine Safe.bind hcount fun r hr => ?_
    subst hr
    dsimp only
    have h1 := h.setTcb hst htcb (.of_state hpeer hstate)
    have hkeep : ∀ g, k.Handshaking g →
        (k.setTcb fd (t.checkRetx k.cfg.retxThreshold k.cfg.retxMax).1).Handshaking g := by
      rintro g ⟨st', t', hst', ht', hs'⟩
      by_cases hg : g = fd
      · subst hg
        cases hst.symm.trans hst'
        cases htcb.symm.trans ht'
        refine ⟨{ st with tcb := some (t.checkRetx k.cfg.retxThreshold k.cfg.retxMax).1 }, _, ?_, rfl,
          by rw [hstate]; exact hs'⟩
        rw [lookup_setTcb, if_pos rfl, hst]
        rfl
      · exact ⟨st', t', by rw [lookup_setTcb, if_neg hg]; exact hst', ht', hs'⟩
    refine Safe.bind (countAll_safe h1 fun g hg =>
      tcb?_setTcb_isSome k fd g _ (hfds g (List.mem_cons_of_mem fd hg))) fun r hr => ?_
    obtain ⟨k', resend, abort⟩ := r
    obtain ⟨h2, hsome', hhand, hresend, habort⟩ := hr
    refine ⟨h2, fun g hg => hsome' g (tcb?_setTcb_isSome k fd g _ hg), fun g hg => hhand g (hkeep g hg),
      fun g hg => ?_, fun g hg => ?_⟩
    · dsimp only at hg
      split at hg
      · rename_i hact
        rcases List.mem_cons.mp hg with rfl | hg
        · exact hhand g (hkeep g ⟨st, t, hst, htcb, haction hact⟩)
        · exact hresend g hg
      · exact hresend g hg
    · dsimp only at hg
      split at hg
      · rcases List.mem_cons.mp hg with rfl | hg
        · exact List.mem_cons_self
        · exact List.mem_cons_of_mem fd (habort g hg)
      · exact List.mem_cons_of_mem fd (habort g hg)

/-- **The retransmission check.** -/
theorem checkRetx_safe (h : k.Tidy own live) : Safe (Kernel.Tidy own live) k.checkRetx := by
  have hcand : ∀ fd ∈ k.candidates Tcb.awaitsAck, (k.tcb? fd).isSome = true := by
    intro fd hfd
    obtain ⟨st, t, hst, ht, -⟩ := mem_candidates.mp hfd
    rw [tcb?, hst, Option.bind_some, ht]
    rfl
  refine Safe.bind (countAll_safe h hcand) fun r hr => ?_
  obtain ⟨k1, resend, abort⟩ := r
  obtain ⟨h1, hsome, -, hresend, habort⟩ := hr
  -- the handshakes are only sent again
  refine Safe.bind (p := fun k2 : Kernel => k2.sockets = k1.sockets)
    (Safe.foldlM (q := fun k2 : Kernel => k2.sockets = k1.sockets) ?_ rfl) fun k2 hk2 => ?_
  · intro fd hfd k2 hk2
    obtain ⟨st, t, hst, ht, hs⟩ := hresend fd hfd
    have hst2 : k2.lookup fd = some st := by
      rw [lookup, hk2]
      exact hst
    refine Safe.bind (Safe.expect (p := fun st' => st' = st) _ hst2 rfl) fun st' hst' => ?_
    subst hst'
    refine Safe.bind (Safe.expect (p := fun t' => t' = t) _ ht rfl) fun t' ht' => ?_
    subst ht'
    obtain ⟨key, -, hend⟩ := h1.endpoint hst ht
    refine Safe.bind (Safe.returns hend) fun loc hloc => ?_
    refine Safe.bind (p := fun _ => True) ?_ fun seg _ => hk2
    unfold Tcb.handshakeSegment
    cases hstate : t'.state <;> rw [hstate] at hs <;> trivial
  · -- the others are given up
    have h2 : k2.Tidy own live := by
      rw [Tidy, hk2]
      exact h1
    have hsome2 : ∀ fd ∈ abort, (k2.tcb? fd).isSome = true := by
      intro fd hfd
      have := hsome fd (hcand fd (habort fd hfd))
      rw [tcb?, lookup, hk2]
      exact this
    refine (Safe.foldlM (q := fun k3 : Kernel => k3.Tidy own live ∧ ∀ fd ∈ abort, ∃ st, k3.lookup fd = some st)
      ?_ ⟨h2, fun fd hfd => ?_⟩).mono fun _ h3 => h3.1
    · intro fd hfd k3 h3
      obtain ⟨st, hst⟩ := h3.2 fd hfd
      have hsafe := abortWith_safe h3.1 hst .timedOut
      cases hk4 : k3.abortWith fd .timedOut with
      | error e =>
        rw [hk4] at hsafe
        cases e <;> exact hsafe
      | ok k4 =>
        refine ⟨hsafe.of_ok hk4, fun g hg => ?_⟩
        obtain ⟨_, -, hk4⟩ := bind_eq_ok.mp hk4
        cases hk4
        rw [lookup_modifySocket]
        split
        · rw [hst]
          exact ⟨_, rfl⟩
        · exact h3.2 g hg
    · obtain ⟨t, ht⟩ := Option.isSome_iff_exists.mp (hsome2 fd hfd)
      obtain ⟨st, hst, -⟩ := Option.bind_eq_some_iff.mp ht
      exact ⟨st, hst⟩

/-- One connection's segments. -/
theorem segmentOne_safe (h : k.Tidy own live) (hst : k.lookup fd = some st) (ht : st.tcb = some t) :
    Safe (fun k' => k'.Tidy own live ∧ ∀ g, (k.tcb? g).isSome = true → (k'.tcb? g).isSome = true)
      (k.segmentOne fd) := by
  refine Safe.bind (Safe.expect (p := fun st' => st' = st) _ hst rfl) fun st' hst' => ?_
  subst hst'
  obtain ⟨key, -, hend⟩ := h.endpoint hst ht
  refine Safe.bind (Safe.returns hend) fun loc hloc => ?_
  refine Safe.bind (p := fun t' => t' = t) (Safe.expect _ ht rfl) fun t' ht' => ?_
  subst ht'
  refine Safe.bind (t'.segmentLoop_safe _ _ _ _) fun r hr => ?_
  refine ⟨?_, fun g hg => ?_⟩
  · rw [Tidy, sockets_emitAll]
    exact h.setTcb hst ht (.of_state hr.1 hr.2)
  · rw [tcb?, lookup, sockets_emitAll]
    exact tcb?_setTcb_isSome k fd g _ hg

theorem segmentAll_safe (h : k.Tidy own live) : Safe (Kernel.Tidy own live) k.segmentAll := by
  refine (Safe.foldlM (q := fun k' : Kernel => k'.Tidy own live ∧
    ∀ fd ∈ k.candidates Tcb.wantsSegment, (k'.tcb? fd).isSome = true) ?_ ⟨h, ?_⟩).mono fun _ h => h.1
  · intro fd hfd k' h'
    obtain ⟨t, ht⟩ := Option.isSome_iff_exists.mp (h'.2 fd hfd)
    obtain ⟨st, hst, htcb⟩ := Option.bind_eq_some_iff.mp ht
    exact (segmentOne_safe h'.1 hst htcb).mono fun k2 h2 => ⟨h2.1, fun g hg => h2.2 g (h'.2 g hg)⟩
  · intro fd hfd
    obtain ⟨st, t, hst, ht, -⟩ := mem_candidates.mp hfd
    rw [tcb?, hst, Option.bind_some, ht]
    rfl

theorem route_safe : ∀ {pkts : List Packet} {k : Kernel}, k.Tidy own (fun _ => True) →
    Safe (fun r => r.1.Tidy own fun _ => True) (route k pkts)
  | [], _, h => h
  | pkt :: pkts, k, h => by
    unfold route
    split
    · exact Safe.bind (deliver_safe h pkt) fun k' h' => route_safe h'
    · exact Safe.bind (route_safe h) fun r h' => h'

theorem egressLoop_safe (fuel : Nat) : ∀ {k : Kernel}, k.Tidy own (fun _ => True) →
    Safe (fun r => r.1.Tidy own fun _ => True) (egressLoop fuel k) := by
  induction fuel with
  | zero => exact fun _ => trivial
  | succ fuel ih =>
    intro k h
    refine Safe.bind (segmentAll_safe h) fun k1 h1 => ?_
    split
    · exact h1
    · exact Safe.bind (route_safe h1) fun r h2 => Safe.bind (ih h2) fun r' h3 => h3

/-- What the application has closed is nobody's and waits nowhere, so it can go. -/
theorem Tidy.reap (h : k.Tidy own live) (hst : k.lookup fd = some st) (hclosed : st.fdClosed = true) :
    (k.removeSocket fd).Tidy own live := by
  have hnone : own fd = none := by
    by_contra hown
    obtain ⟨handle, hown⟩ := Option.ne_none_iff_exists'.mp hown
    have := ((h.socket fd st hst).serves handle hown).1
    rw [hclosed] at this
    cases this
  refine SocketTable.Tidy.removed h (h.not_queued hst fun hw => ?_) (fun _ _ => rfl) hnone
    fun g hg => Or.inr hg
  rw [hw.1] at hclosed
  cases hclosed

theorem reapClosed_tidy (h : k.Tidy own live) : k.reapClosed.Tidy own live := by
  have hfold : ∀ (fds : List Fd) (k' : Kernel), k'.Tidy own live →
      (∀ fd ∈ fds, ∀ st, k'.lookup fd = some st → st.fdClosed = true) →
      (fds.foldl removeSocket k').Tidy own live := by
    intro fds
    induction fds with
    | nil => exact fun _ h _ => h
    | cons fd fds ih =>
      intro k' h' hfds
      have h1 : (k'.removeSocket fd).Tidy own live := by
        cases hst : k'.lookup fd with
        | some st => exact h'.reap hst (hfds fd List.mem_cons_self st hst)
        | none =>
          refine SocketTable.Tidy.removed h' (fun hq => ?_) (fun _ _ => rfl) ?_ fun g hg => Or.inr hg
          · obtain ⟨-, st, hst', -⟩ := h'.waiting fd hq
            exact Option.some_ne_none st (hst'.symm.trans hst)
          · by_contra hown
            exact h'.owned fd hown hst
      refine ih _ h1 fun g hg st hst => hfds g (List.mem_cons_of_mem fd hg) st ?_
      rw [lookup_removeSocket] at hst
      split at hst
      · cases hst
      · exact hst
  refine hfold _ k h fun fd hfd st hst => ?_
  obtain ⟨⟨fd', st'⟩, hmem, rfl⟩ := List.mem_map.mp hfd
  obtain ⟨hmem, hreap⟩ := List.mem_filter.mp hmem
  cases (IndexMap.mem_entries.mp hmem).symm.trans hst
  exact (Bool.and_eq_true_iff.mp hreap).1

/-- **A turn of `egress`.** -/
theorem egress_safe (h : k.Tidy own fun _ => True) (fuel : Nat) :
    Safe (fun r => r.1.Tidy own fun _ => True) (k.egress fuel) :=
  Safe.bind (checkRetx_safe h) fun _ h1 => Safe.bind (egressLoop_safe fuel h1) fun _ h2 =>
    reapClosed_tidy h2

end Kernel

end Turmoil.Net
