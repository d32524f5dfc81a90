/-
# One end of a connection in its kernel

`Net.Progress` says what a control block of one end, and the segments of one end, are like.
`AtEnd` adds what ties them to the kernel: segments between the two addresses are given to the one
descriptor and only that one sends them, and whatever is queued between the two addresses is right.

One `KStep` keeps it (`AtEnd.step`), so every packet (`AtEnd.deliver`), every turn of `egress` and
every call does.  The calls that move bytes are looked at one by one, since what they return is
counted.
-/
import Turmoil.Net.Pair
import Turmoil.Net.Table

namespace Turmoil.Net

/-! ## 1. What goes out of a connection -/

/-- The ports of a segment. -/
def TcpSegment.Between (loc rem : SocketAddr) (s : TcpSegment) : Prop :=
  s.srcPort = loc.port ∧ s.dstPort = rem.port

namespace Tcb

variable {t t' : Tcb} {loc rem : SocketAddr} {a : TcbAct} {cfg : KernelConfig} {s seg : TcpSegment}
  {segs : List TcpSegment} {recvCap mss : Nat}

theorem onAck_peer (h : t.onAck s = .ok t') : t'.peer = t.peer := by
  unfold onAck at h
  split at h
  · obtain ⟨t1, h1, h⟩ := bind_eq_ok.mp h
    cases h
    unfold takeAck at h1
    dsimp only at h1
    split at h1
    · obtain ⟨rest, -, h1⟩ := bind_eq_ok.mp h1
      cases h1
      rfl
    · cases h1
      rfl
  · cases h
    rfl

theorem handleEstablished_peer {sendAck : Bool}
    (h : t.handleEstablished recvCap s = .ok (t', sendAck)) : t'.peer = t.peer := by
  obtain ⟨t1, h1, h⟩ := bind_eq_ok.mp h
  obtain ⟨rfl, -⟩ := Prod.mk.inj (Except.ok.inj h)
  have hdata : (t1.onData recvCap s).1.peer = t1.peer := by
    have hcase := onData_case recvCap t1 s
    generalize t1.onData recvCap s = r at hcase ⊢
    cases hcase <;> rfl
  have hfin : ((t1.onData recvCap s).1.onFin s).1.peer = (t1.onData recvCap s).1.peer := by
    have hcase := onFin_case (t1.onData recvCap s).1 s
    generalize (t1.onData recvCap s).1.onFin s = r at hcase ⊢
    cases hcase <;> rfl
  exact hfin.trans (hdata.trans (onAck_peer h1))

theorem onSegment_peer (h : t.onSegment recvCap loc rem s = .ok (t', segs)) :
    t'.peer = t.peer ∧ ∀ seg ∈ segs, seg.Between loc rem := by
  unfold onSegment at h
  split at h
  · cases h
    exact ⟨rfl, List.forall_mem_nil _⟩
  · split at h
    · split at h
      · cases h
        exact ⟨rfl, List.forall_mem_singleton.mpr ⟨rfl, rfl⟩⟩
      · cases h
        exact ⟨rfl, List.forall_mem_nil _⟩
    · split at h
      · split at h <;> cases h <;> exact ⟨rfl, List.forall_mem_nil _⟩
      · cases h
        exact ⟨rfl, List.forall_mem_nil _⟩
    · cases h
      exact ⟨rfl, List.forall_mem_nil _⟩
    · obtain ⟨⟨t1, sendAck⟩, h1, h⟩ := bind_eq_ok.mp h
      cases h
      refine ⟨handleEstablished_peer h1, fun seg hseg => ?_⟩
      split at hseg
      · cases List.mem_singleton.mp hseg
        exact ⟨rfl, rfl⟩
      · cases hseg

theorem segmentStep_peer (h : t.segmentStep recvCap mss loc = .ok (some (t', seg))) :
    t'.peer = t.peer ∧ seg.Between loc t.peer := by
  unfold segmentStep at h
  dsimp only at h
  split at h
  · obtain ⟨payload, -, h⟩ := bind_eq_ok.mp h
    cases h
    exact ⟨rfl, rfl, rfl⟩
  · split at h
    · cases h
      exact ⟨rfl, rfl, rfl⟩
    · cases h

theorem segmentLoop_peer : ∀ {fuel : Nat} {t : Tcb} {segs : List TcpSegment},
    t.segmentLoop recvCap mss loc fuel = .ok (t', segs) →
    t'.peer = t.peer ∧ ∀ seg ∈ segs, seg.Between loc t.peer := by
  intro fuel
  induction fuel with
  | zero =>
    intro t segs h
    cases h
  | succ fuel ih =>
    intro t segs h
    cases hstep : t.segmentStep recvCap mss loc with
    | error e =>
      rw [segmentLoop_panic hstep] at h
      cases h
    | ok r =>
      cases r with
      | none =>
        rw [segmentLoop_idle hstep] at h
        cases h
        exact ⟨rfl, List.forall_mem_nil _⟩
      | some r =>
        obtain ⟨t1, seg⟩ := r
        obtain ⟨hpeer, hseg⟩ := segmentStep_peer hstep
        rw [segmentLoop_turn hstep] at h
        obtain ⟨⟨t2, segs2⟩, h2, h⟩ := bind_eq_ok.mp h
        cases h
        obtain ⟨hpeer2, hsegs⟩ := ih h2
        rw [hpeer] at hpeer2 hsegs
        exact ⟨hpeer2, List.forall_mem_cons.mpr ⟨hseg, hsegs⟩⟩

/-- **An act leaves the peer alone**, and what it sends goes from where it is told to, to the peer
or back the way a segment came. -/
theorem act_peer (h : t.act cfg loc rem a = .ok (t', segs)) : t'.peer = t.peer
    ∧ ∀ seg ∈ segs, seg.Between loc rem ∨ (∀ s, a ≠ .inbound s) ∧ seg.Between loc t.peer := by
  cases a with
  | inbound s =>
    obtain ⟨h1, h2⟩ := onSegment_peer h
    exact ⟨h1, fun seg hseg => Or.inl (h2 seg hseg)⟩
  | send buf =>
    cases h
    refine ⟨?_, List.forall_mem_nil _⟩
    have hcase := pollSend_case cfg.sendBufCap t buf
    generalize t.pollSend cfg.sendBufCap buf = r at hcase ⊢
    cases hcase <;> rfl
  | shutdown =>
    cases h
    refine ⟨?_, List.forall_mem_nil _⟩
    rcases pollShutdownWrite_case t with ⟨heq, -, -⟩ | heq <;> rw [heq]
    rfl
  | recv lens =>
    cases h
    have hcase := pollRecvVectored_case cfg.recvBufCap t lens
    generalize t.pollRecvVectored cfg.recvBufCap lens = r at hcase ⊢
    constructor
    · cases hcase <;> rfl
    · intro seg hseg
      split at hseg
      · cases List.mem_singleton.mp hseg
        exact Or.inl ⟨rfl, rfl⟩
      · cases hseg
  | linger =>
    cases h
    refine ⟨?_, List.forall_mem_nil _⟩
    split <;> rfl
  | count =>
    cases h
    refine ⟨?_, List.forall_mem_nil _⟩
    obtain ⟨since, attempts, heq | heq⟩ := checkRetx_case cfg.retxThreshold cfg.retxMax t <;>
      rw [heq]
  | giveUp =>
    cases h
    exact ⟨rfl, List.forall_mem_nil _⟩
  | handshake =>
    obtain ⟨seg, hseg, h⟩ := bind_eq_ok.mp h
    cases h
    refine ⟨rfl, List.forall_mem_singleton.mpr (Or.inr ⟨nofun, ?_⟩)⟩
    unfold handshakeSegment at hseg
    split at hseg <;> cases hseg <;> exact ⟨rfl, rfl⟩
  | segment mss =>
    obtain ⟨h1, h2⟩ := segmentLoop_peer h
    exact ⟨h1, fun seg hseg => Or.inr ⟨nofun, h2 seg hseg⟩⟩

end Tcb

/-! ## 2. Addresses -/

namespace Kernel

/-- A kernel speaks for its own addresses: its connections are at one of them, the index points at
them, and what is queued comes from one. -/
structure Homed (k : Kernel) : Prop where
  bound : ∀ f st key, k.lookup f = some st → st.bound = some key →
    key.localAddr.isUnspecified = true ∨ k.isLocal key.localAddr = true
  conn : ∀ f c l, k.conn? f = some c → c.loc? = some l → k.isLocal l.ip = true
  indexed : ∀ l r f, k.sockets.findConnection l r = some f → k.Connected l r f
  queued : ∀ pkt ∈ k.outbound, ∀ s, pkt.payload = .tcp s → k.isLocal pkt.src = true

variable {k k' : Kernel} {σ : Scope}

/-- The packets an act queues. -/
theorem mem_emitAll {src dst : SocketAddr} {segs : List TcpSegment} {pkt : Packet} :
    pkt ∈ (k.emitAll src dst segs).outbound ↔ pkt ∈ k.outbound
      ∨ ∃ seg ∈ segs, pkt = ⟨src.ip, dst.ip, 64, .tcp seg⟩ := by
  rw [emitAll_eq]
  simp [eq_comm]

theorem outbound_emitRst (k : Kernel) (loc rem : SocketAddr) (s : TcpSegment) :
    ∃ seg, (k.emitRst loc rem s).outbound = k.outbound ++ [⟨loc.ip, rem.ip, 64, .tcp seg⟩]
      ∧ seg.flags.rst = true ∧ seg.flags.syn = false
      ∧ (k.emitRst loc rem s).sockets = k.sockets := by
  unfold emitRst
  split
  exact ⟨_, rfl, rfl, rfl, rfl⟩

/-- A connection was set up at one of the addresses. -/
theorem Homed.opened {fd : Fd} {c : Conn} {loc : SocketAddr} {seg : TcpSegment} (hk : k.Homed)
    (hnone : k.conn? fd = none) (hloc : k.isLocal loc.ip = true) (h : Opened k k' fd c loc seg) :
    k'.Homed := by
  have hlocal : ∀ ip, k'.isLocal ip = k.isLocal ip := by
    intro ip
    rw [isLocal, h.addresses, isLocal]
  refine ⟨fun f st key hst hb => ?_, fun f c' l hc hl => ?_, fun l r f hf => ?_,
    fun pkt hp s hs => ?_⟩
  · rw [hlocal]
    by_cases hf : f = fd
    · subst hf
      right
      have hend := h.endpoint
      rw [Conn.loc?, ← h.bound st hst, hb] at hend
      rw [← hloc, ← (Option.some.inj hend)]
    · exact hk.bound f st key (h.known f st hf hst) hb
  · rw [hlocal]
    rw [h.conn] at hc
    split at hc
    · cases hc
      cases h.endpoint.symm.trans hl
      exact hloc
    · exact hk.conn f c' l hc hl
  · rw [SocketTable.findConnection, h.connections, IndexMap.get?_insert] at hf
    split at hf
    · rename_i heq
      cases hf
      cases heq
      exact h.connected
    · obtain ⟨c', hc', hl, hr⟩ := hk.indexed l r f hf
      refine ⟨c', ?_, hl, hr⟩
      rw [h.conn, if_neg]
      · exact hc'
      · rintro rfl
        rw [hnone] at hc'
        cases hc'
  · rw [hlocal]
    rw [h.outbound] at hp
    rcases List.mem_append.mp hp with hp | hp
    · exact hk.queued pkt hp s hs
    · cases List.mem_singleton.mp hp
      exact hloc

/-- **A kernel goes on speaking for its own addresses**, if only those are delivered to it. -/
theorem Homed.step (hk : k.Homed) (hs : k.Sound)
    (harr : ∀ l r s, σ.arrives l r s → k.isLocal l.ip = true) (h : KStep σ k k') : k'.Homed := by
  have hlocal : ∀ ip, k'.isLocal ip = k.isLocal ip := fun ip => by rw [isLocal, h.cfg.2, isLocal]
  cases h with
  | quiet h =>
    refine ⟨fun f st key hst hb => ?_, fun f c l hc hl => ?_, fun l r f hf => ?_,
      fun pkt hp s hs => ?_⟩
    · rw [hlocal]
      rcases h.bound f st key hst hb with ⟨st', hst', hb'⟩ | hb'
      · exact hk.bound f st' key hst' hb'
      · exact hb'
    · rw [hlocal]
      rw [h.conn] at hc
      exact hk.conn f c l hc hl
    · rw [SocketTable.findConnection, h.connections] at hf
      obtain ⟨c, hc, hends⟩ := hk.indexed l r f hf
      exact ⟨c, by rw [h.conn]; exact hc, hends⟩
    · rw [hlocal]
      rw [h.outbound] at hp
      exact hk.queued pkt hp s hs
  | act hc ha hin hq hloc hclosed hfit =>
    rename_i fd c t loc rem a segs fdClosed
    obtain ⟨hpeer, -⟩ := Tcb.act_peer ha
    refine ⟨fun f st key hst hb => ?_, fun f c' l hc' hl => ?_, fun l r f hf => ?_,
      fun pkt hp s hs => ?_⟩
    · rw [hlocal]
      rw [emitAll_eq] at hst
      obtain ⟨st', hst', hb', -⟩ := lookup_putTcb hc t fdClosed hst
      exact hk.bound f st' key hst' (hb'.trans hb)
    · rw [hlocal]
      rw [conn?_emitAll, conn?_putTcb hc] at hc'
      split at hc'
      · cases hc'
        exact hk.conn fd c l hc hl
      · exact hk.conn f c' l hc' hl
    · rw [emitAll_eq] at hf
      obtain ⟨c', hc', hl, hr⟩ := hk.indexed l r f hf
      by_cases hfd : f = fd
      · subst hfd
        cases hc.symm.trans hc'
        refine ⟨⟨c.bound, t, fdClosed⟩, ?_, hl, hpeer.trans hr⟩
        rw [conn?_emitAll, conn?_putTcb hc, if_pos rfl]
      · refine ⟨c', ?_, hl, hr⟩
        rw [conn?_emitAll, conn?_putTcb hc, if_neg hfd]
        exact hc'
    · rw [hlocal]
      rcases mem_emitAll.mp hp with hp | ⟨seg, hseg, rfl⟩
      · exact hk.queued pkt hp s hs
      · by_cases hinb : ∃ s, a = .inbound s
        · obtain ⟨s', rfl⟩ := hinb
          exact harr _ _ _ (hin s' rfl).2
        · exact hk.conn fd c loc hc (hloc (List.ne_nil_of_mem hseg) fun s' h => hinb ⟨s', h⟩).1
  | connect hst ht ho h =>
    rename_i fd st peer loc
    refine hk.opened ?_ ?_ h
    · rw [conn?, hst]
      show st.tcb.map _ = none
      rw [ht]
      rfl
    · obtain ⟨key, hkey, hend⟩ := Option.map_eq_some_iff.mp h.endpoint
      rcases hk.bound fd st key hst hkey with hb | hb
      · have := h.concrete
        rw [← hend] at this
        exact absurd (hb.symm.trans this) (by decide)
      · rw [← hend]
        exact hb
  | accept hnone hin hsyn ho hid h =>
    refine hk.opened ?_ (harr _ _ _ hin) h
    cases hc : k.conn? k.sockets.nextId with
    | none => rfl
    | some c =>
      obtain ⟨st, hst, -⟩ := conn?_eq_some.mp hc
      exact absurd (hs.fresh _ st hst) (Nat.lt_irrefl _)
  | reject s hnone hin =>
    rename_i loc rem
    obtain ⟨seg, hout, -, -, hsock⟩ := outbound_emitRst k loc rem s
    refine ⟨fun f st key hst hb => ?_, fun f c l hc hl => ?_, fun l r f hf => ?_,
      fun pkt hp s' hs' => ?_⟩
    · rw [hlocal]
      rw [lookup, hsock] at hst
      exact hk.bound f st key hst hb
    · rw [hlocal]
      rw [conn?, lookup, hsock] at hc
      exact hk.conn f c l hc hl
    · rw [hsock] at hf
      obtain ⟨c, hc, hends⟩ := hk.indexed l r f hf
      refine ⟨c, ?_, hends⟩
      rw [conn?, lookup, hsock]
      exact hc
    · rw [hlocal]
      rw [hout] at hp
      rcases List.mem_append.mp hp with hp | hp
      · exact hk.queued pkt hp s' hs'
      · cases List.mem_singleton.mp hp
        exact harr _ _ _ hin
  | reset hc hloc hrm =>
    refine ⟨hk.bound, hk.conn, hk.indexed, fun pkt hp s hs => ?_⟩
    rcases List.mem_append.mp hp with hp | hp
    · exact hk.queued pkt hp s hs
    · cases List.mem_singleton.mp hp
      exact hk.conn _ _ _ hc hloc
  | remove hrm =>
    rename_i fd
    refine ⟨fun f st key hst hb => ?_, fun f c l hc hl => ?_, fun l r f hf => ?_, hk.queued⟩
    · rw [lookup_removeSocket] at hst
      split at hst
      · cases hst
      · exact hk.bound f st key hst hb
    · rw [conn?_removeSocket] at hc
      split at hc
      · cases hc
      · exact hk.conn f c l hc hl
    · obtain ⟨hne, hf⟩ := SocketTable.connections_remove.mp hf
      obtain ⟨c, hc, hends⟩ := hk.indexed l r f hf
      refine ⟨c, ?_, hends⟩
      rw [conn?_removeSocket, if_neg hne]
      exact hc
  | datagram src dst d =>
    refine ⟨hk.bound, hk.conn, hk.indexed, fun pkt hp s hs => ?_⟩
    rcases List.mem_append.mp hp with hp | hp
    · exact hk.queued pkt hp s hs
    · cases List.mem_singleton.mp hp
      cases hs

end Kernel

/-! ## 3. One end of a connection in its kernel -/

/-- The connection is from one address to another. -/
def Conn.Joins (c : Conn) (loc rem : SocketAddr) : Prop := c.loc? = some loc ∧ c.tcb.peer = rem

/-- What is under way from one address to another is right. -/
def FineFrom (loc rem : SocketAddr) (g o : Progress) (pkts : List Packet) : Prop :=
  ∀ pkt ∈ pkts, ∀ s, pkt.payload = .tcp s → (⟨pkt.src, s.srcPort⟩ : SocketAddr) = loc →
    (⟨pkt.dst, s.dstPort⟩ : SocketAddr) = rem → s.Fine g o

theorem FineFrom.mono {loc rem : SocketAddr} {g g' o o' : Progress} {pkts : List Packet}
    (h : FineFrom loc rem g o pkts) (hg : g.Grows g') (ho : o.Grows o') :
    FineFrom loc rem g' o' pkts :=
  fun pkt hp s hs hsrc hdst => (h pkt hp s hs hsrc hdst).mono hg ho

theorem FineFrom.append {loc rem : SocketAddr} {g o : Progress} {pkts more : List Packet}
    (h : FineFrom loc rem g o pkts) (h' : FineFrom loc rem g o more) :
    FineFrom loc rem g o (pkts ++ more) :=
  fun pkt hp => (List.mem_append.mp hp).elim (h pkt) (h' pkt)

/-- A packet that is right if it is between the two addresses. -/
theorem FineFrom.one {loc rem l r : SocketAddr} {g o : Progress} {s : TcpSegment}
    (h : l = loc → r = rem → s.Fine g o) (hports : s.Between l r) :
    FineFrom loc rem g o [⟨l.ip, r.ip, 64, .tcp s⟩] := by
  intro pkt hp s' hs' hsrc hdst
  cases List.mem_singleton.mp hp
  cases hs'
  refine h ?_ ?_
  · rw [← hsrc, hports.1]
  · rw [← hdst, hports.2]

namespace Progress

/-- Nothing that a call returns has changed. -/
structure Turn (g g' : Progress) : Prop where
  grows : g.Grows g'
  sent : g'.sent = g.sent
  shut : g'.shut = g.shut
  read : g'.read = g.read

theorem Turn.refl (g : Progress) : g.Turn g := ⟨.refl g, rfl, rfl, rfl⟩

theorem Turn.trans {g g' g'' : Progress} (h : g.Turn g') (h' : g'.Turn g'') : g.Turn g'' :=
  ⟨h.grows.trans h'.grows, h'.sent.trans h.sent, h'.shut.trans h.shut, h'.read.trans h.read⟩

end Progress

theorem Tcb.Hears.turn {g g' o : Progress} (h : Tcb.Hears g g' o) : g.Turn g' := by
  refine ⟨h.grows, ?_, ?_, ?_⟩ <;> rw [h.same]

namespace Kernel

variable {k k' : Kernel} {σ : Scope} {loc rem : SocketAddr} {fd : Fd} {g o : Progress}

/-- The kernel of one end: `fd` is the descriptor connected from `loc` to `rem`, if there is one. -/
structure AtEnd (loc rem : SocketAddr) (fd : Fd) (g o : Progress) (k : Kernel) : Prop where
  sound : k.Sound
  homed : k.Homed
  far : k.isLocal rem.ip = false
  sole : ∀ f c, k.conn? f = some c → c.Joins loc rem → f = fd
  /-- Descriptors are not used again. -/
  started : g.opened = true → fd < k.sockets.nextId
    ∧ (k.lookup fd = none ∨ ∃ c, k.conn? fd = some c ∧ c.Joins loc rem)
  unstarted : g.opened = false → (∀ c, k.conn? fd = some c → ¬ c.Joins loc rem)
    ∧ g = { Progress.none with base := g.base }
  tracks : ∀ c, k.conn? fd = some c → c.Joins loc rem → c.tcb.Tracks g o
  queued : FineFrom loc rem g o k.outbound

theorem AtEnd.opened (hk : k.AtEnd loc rem fd g o) {c : Conn} (hc : k.conn? fd = some c)
    (hj : c.Joins loc rem) : g.opened = true := by
  cases hg : g.opened with
  | true => rfl
  | false => exact absurd hj ((hk.unstarted hg).1 c hc)

/-- The index gives the segments of the connection to it. -/
theorem AtEnd.of_found (hk : k.AtEnd loc rem fd g o) {l r : SocketAddr} {f : Fd} {c : Conn}
    (h : k.sockets.findConnection l r = some f) (hc : k.conn? f = some c) :
    c.Joins loc rem ↔ l = loc ∧ r = rem := by
  obtain ⟨c', hc', hl, hr⟩ := hk.homed.indexed l r f h
  cases hc.symm.trans hc'
  unfold Conn.Joins
  rw [hl, hr, Option.some.injEq]

/-- The connections and the descriptor are as before. -/
theorem AtEnd.frame (hk : k.AtEnd loc rem fd g o) (hsound : k'.Sound) (hhomed : k'.Homed)
    (haddr : k'.addresses = k.addresses) (hconn : ∀ f, k'.conn? f = k.conn? f)
    (hid : k.sockets.nextId ≤ k'.sockets.nextId)
    (hlookup : fd < k.sockets.nextId → k.lookup fd = none → k'.lookup fd = none)
    (hq : FineFrom loc rem g o k'.outbound) : k'.AtEnd loc rem fd g o where
  sound := hsound
  homed := hhomed
  far := by
    rw [isLocal, haddr]
    exact hk.far
  sole f c hc := by
    rw [hconn] at hc
    exact hk.sole f c hc
  started hg := by
    obtain ⟨h1, h2⟩ := hk.started hg
    refine ⟨Nat.lt_of_lt_of_le h1 hid, ?_⟩
    rw [hconn]
    exact h2.imp (hlookup h1) id
  unstarted hg := by
    rw [hconn]
    exact hk.unstarted hg
  tracks c hc := by
    rw [hconn] at hc
    exact hk.tracks c hc
  queued := hq

/-- The other end goes on. -/
theorem AtEnd.mono {o' : Progress} (hk : k.AtEnd loc rem fd g o) (htook : g.Took o)
    (ho : o.Grows o') : k.AtEnd loc rem fd g o' :=
  ⟨hk.sound, hk.homed, hk.far, hk.sole, hk.started, hk.unstarted,
    fun c hc hj => (hk.tracks c hc hj).mono htook ho, hk.queued.mono (.refl g) ho⟩

/-- A connection has a new control block. -/
theorem conn?_put {f : Fd} {c : Conn} (hc : k.conn? f = some c) (t : Tcb) (closed : Bool)
    (l r : SocketAddr) (segs : List TcpSegment) (f' : Fd) :
    ((k.putTcb f t closed).emitAll l r segs).conn? f'
      = if f' = f then some ⟨c.bound, t, closed⟩ else k.conn? f' := by
  rw [conn?_emitAll, conn?_putTcb hc]

/-- This end goes on, with a new control block. -/
theorem AtEnd.put {g' : Progress} {c : Conn} {t : Tcb} {segs : List TcpSegment} {closed : Bool}
    (hk : k.AtEnd loc rem fd g o) (hc : k.conn? fd = some c) (hj : c.Joins loc rem)
    (hg : g.Grows g') (ht : t.Tracks g' o) (hpeer : t.peer = c.tcb.peer)
    (hsegs : ∀ seg ∈ segs, seg.Fine g' o)
    (hsound : ((k.putTcb fd t closed).emitAll loc rem segs).Sound)
    (hhomed : ((k.putTcb fd t closed).emitAll loc rem segs).Homed) :
    ((k.putTcb fd t closed).emitAll loc rem segs).AtEnd loc rem fd g' o := by
  have hopened := hk.opened hc hj
  have hconn := conn?_put hc t closed loc rem segs
  have hj' : Conn.Joins ⟨c.bound, t, closed⟩ loc rem := ⟨hj.1, hpeer.trans hj.2⟩
  refine ⟨hsound, hhomed, ?_, fun f c' hc' hj => ?_, fun _ => ?_, fun hg' => ?_, fun c' hc' _ => ?_,
    fun pkt hp s hs hsrc hdst => ?_⟩
  · rw [emitAll_eq]
    exact hk.far
  · rw [hconn] at hc'
    split at hc'
    · assumption
    · exact hk.sole f c' hc' hj
  · rw [hconn, if_pos rfl]
    refine ⟨?_, Or.inr ⟨_, rfl, hj'⟩⟩
    rw [emitAll_eq]
    exact (hk.started hopened).1
  · have := (hg.opened hopened).1
    rw [hg'] at this
    cases this
  · rw [hconn, if_pos rfl] at hc'
    cases hc'
    exact ht
  · rcases mem_emitAll.mp hp with hp | ⟨seg, hseg, rfl⟩
    · exact (hk.queued pkt hp s hs hsrc hdst).mono hg (.refl o)
    · cases hs
      exact hsegs _ hseg

/-- Another connection goes on, and sends nothing between the two addresses. -/
theorem AtEnd.aside {f : Fd} {c : Conn} {t : Tcb} {l r : SocketAddr} {segs : List TcpSegment}
    {closed : Bool} (hk : k.AtEnd loc rem fd g o) (hc : k.conn? f = some c)
    (hno : ¬ c.Joins loc rem) (hpeer : t.peer = c.tcb.peer)
    (hsegs : ∀ seg ∈ segs, seg.Between l r ∧ ¬ (l = loc ∧ r = rem))
    (hsound : ((k.putTcb f t closed).emitAll l r segs).Sound)
    (hhomed : ((k.putTcb f t closed).emitAll l r segs).Homed) :
    ((k.putTcb f t closed).emitAll l r segs).AtEnd loc rem fd g o := by
  have hconn := conn?_put hc t closed l r segs
  have hno' : ¬ Conn.Joins ⟨c.bound, t, closed⟩ loc rem :=
    fun hj => hno ⟨hj.1, hpeer.symm.trans hj.2⟩
  -- the connections between the two addresses are those of before
  have hback : ∀ f' c', ((k.putTcb f t closed).emitAll l r segs).conn? f' = some c' →
      c'.Joins loc rem → f' ≠ f ∧ k.conn? f' = some c' := by
    intro f' c' hc' hj
    rw [hconn] at hc'
    split at hc'
    · cases hc'
      exact absurd hj hno'
    · exact ⟨‹_›, hc'⟩
  refine ⟨hsound, hhomed, ?_, fun f' c' hc' hj => hk.sole f' c' (hback f' c' hc' hj).2 hj,
    fun hg => ?_, fun hg => ?_, fun c' hc' hj => hk.tracks c' (hback fd c' hc' hj).2 hj,
    fun pkt hp s hs hsrc hdst => ?_⟩
  · rw [emitAll_eq]
    exact hk.far
  · obtain ⟨h1, h2⟩ := hk.started hg
    refine ⟨by rw [emitAll_eq]; exact h1, ?_⟩
    rcases h2 with h2 | ⟨c', hc', hj⟩
    · left
      rw [emitAll_eq]
      show (k.putTcb f t closed).lookup fd = none
      rw [putTcb, lookup_modifySocket]
      split
      · rename_i hf
        rw [← hf, h2]
        rfl
      · exact h2
    · right
      refine ⟨c', ?_, hj⟩
      rw [hconn, if_neg]
      · exact hc'
      · rintro rfl
        cases hc.symm.trans hc'
        exact hno hj
  · obtain ⟨h1, h2⟩ := hk.unstarted hg
    exact ⟨fun c' hc' hj => h1 c' (hback fd c' hc' hj).2 hj, h2⟩
  · rcases mem_emitAll.mp hp with hp | ⟨seg, hseg, rfl⟩
    · exact hk.queued pkt hp s hs hsrc hdst
    · cases hs
      obtain ⟨⟨h1, h2⟩, hno⟩ := hsegs _ hseg
      refine absurd ⟨?_, ?_⟩ hno
      · rw [← hsrc, h1]
      · rw [← hdst, h2]

/-- A socket is removed: this connection's, or another. -/
theorem AtEnd.removed {f : Fd} (hk : k.AtEnd loc rem fd g o) (hsound : (k.removeSocket f).Sound)
    (hhomed : (k.removeSocket f).Homed) : (k.removeSocket f).AtEnd loc rem fd g o := by
  have hback : ∀ f' c, (k.removeSocket f).conn? f' = some c → k.conn? f' = some c := by
    intro f' c hc
    rw [conn?_removeSocket] at hc
    split at hc
    · cases hc
    · exact hc
  refine ⟨hsound, hhomed, hk.far, fun f' c hc => hk.sole f' c (hback f' c hc), fun hg => ?_,
    fun hg => ?_, fun c hc => hk.tracks c (hback fd c hc), hk.queued⟩
  · obtain ⟨h1, h2⟩ := hk.started hg
    rw [lookup_removeSocket, conn?_removeSocket]
    split
    · exact ⟨h1, Or.inl rfl⟩
    · exact ⟨h1, h2⟩
  · obtain ⟨h1, h2⟩ := hk.unstarted hg
    exact ⟨fun c hc => h1 c (hback fd c hc), h2⟩

/-- A connection is set up: this one, or one between other addresses. -/
theorem AtEnd.set {f : Fd} {c : Conn} {l : SocketAddr} {seg : TcpSegment}
    (hk : k.AtEnd loc rem fd g o) (htook : g.Took o) (hsound : k'.Sound) (hhomed : k'.Homed)
    (h : Opened k k' f c l seg) (hports : seg.Between l c.tcb.peer)
    (hopen : c.Joins loc rem → f = fd) (hfree : f = fd → g.opened = false)
    (hnew : c.Joins loc rem → ∃ isn,
      c.tcb.Tracks { Progress.none with opened := true, base := isn } o
        ∧ seg.Fine { Progress.none with opened := true, base := isn } o) :
    ∃ g', g.Turn g' ∧ k'.AtEnd loc rem fd g' o ∧ g'.Took o := by
  have hfar : k'.isLocal rem.ip = false := by
    rw [isLocal, h.addresses]
    exact hk.far
  have hsole : ∀ f' c', k'.conn? f' = some c' → c'.Joins loc rem → f' = fd := by
    intro f' c' hc' hj
    rw [h.conn] at hc'
    split at hc'
    · rename_i hf
      cases hc'
      exact hf.trans (hopen hj)
    · exact hk.sole f' c' hc' hj
  by_cases hj : c.Joins loc rem
  · have hf := hopen hj
    subst hf
    obtain ⟨isn, htracks, hseg⟩ := hnew hj
    obtain ⟨-, hnone⟩ := hk.unstarted (hfree rfl)
    have hgrows : g.Grows { Progress.none with opened := true, base := isn } := by
      rw [hnone]
      exact ⟨fun h => absurd h Bool.false_ne_true, List.prefix_rfl,
        fun h => absurd h Bool.false_ne_true, Nat.le_refl _, fun h => absurd h Bool.false_ne_true⟩
    have hconn : k'.conn? f = some c := by rw [h.conn, if_pos rfl]
    refine ⟨_, ⟨hgrows, ?_, ?_, ?_⟩, ⟨hsound, hhomed, hfar, hsole,
      fun _ => ⟨?_, Or.inr ⟨c, hconn, hj⟩⟩, fun h => absurd h.symm Bool.false_ne_true,
      fun c' hc' _ => ?_, ?_⟩,
      .of_nothing rfl rfl rfl⟩
    · rw [hnone]
    · rw [hnone]
    · rw [hnone]
    · obtain ⟨st, hst, -⟩ := conn?_eq_some.mp hconn
      exact hsound.fresh f st hst
    · rw [hconn] at hc'
      cases hc'
      exact htracks
    · rw [h.outbound]
      exact (hk.queued.mono hgrows (.refl o)).append (.one (fun _ _ => hseg) hports)
  · -- the connections between the two addresses are those of before
    have hback : ∀ f' c', k'.conn? f' = some c' → c'.Joins loc rem → k.conn? f' = some c' := by
      intro f' c' hc' hj'
      rw [h.conn] at hc'
      split at hc'
      · cases hc'
        exact absurd hj' hj
      · exact hc'
    refine ⟨g, .refl g, ⟨hsound, hhomed, hfar, hsole, fun hg => ?_, fun hg => ?_,
      fun c' hc' hj' => hk.tracks c' (hback fd c' hc' hj') hj', ?_⟩, htook⟩
    · have hf : fd ≠ f := by
        intro hf
        have := hfree hf.symm
        rw [hg] at this
        cases this
      obtain ⟨h1, h2⟩ := hk.started hg
      refine ⟨Nat.lt_of_lt_of_le h1 h.nextId, h2.imp (fun hnone => ?_) fun hjoined => ?_⟩
      · cases hl : k'.lookup fd with
        | none => rfl
        | some st =>
          have := h.known fd st hf hl
          rw [hnone] at this
          cases this
      · obtain ⟨c', hc', hj'⟩ := hjoined
        exact ⟨c', by rw [h.conn, if_neg hf]; exact hc', hj'⟩
    · obtain ⟨h1, h2⟩ := hk.unstarted hg
      exact ⟨fun c' hc' hj' => h1 c' (hback fd c' hc' hj') hj', h2⟩
    · rw [h.outbound]
      refine hk.queued.append (.one (fun h1 h2 => absurd ⟨?_, h2⟩ hj) hports)
      rw [← h1]
      exact h.endpoint

/-- Taking the queue leaves the connection as it is. -/
theorem AtEnd.drained (hk : k.AtEnd loc rem fd g o) :
    ({ k with outbound := [] } : Kernel).AtEnd loc rem fd g o :=
  ⟨⟨hk.sound.fresh, hk.sound.bound, hk.sound.streams⟩,
    ⟨hk.homed.bound, hk.homed.conn, hk.homed.indexed, List.forall_mem_nil _⟩,
    hk.far, hk.sole, hk.started, hk.unstarted, hk.tracks, List.forall_mem_nil _⟩

/-- What is not set up is not there later. -/
theorem not_connected_step (hno : ∀ l r f, ¬ σ.opens l r f) (hk : ¬ k.Connected loc rem fd)
    (h : KStep σ k k') : ¬ k'.Connected loc rem fd := by
  rintro ⟨c', hc', hl, hr⟩
  cases h with
  | quiet h =>
    rw [h.conn] at hc'
    exact hk ⟨c', hc', hl, hr⟩
  | act hc ha hin hq hloc hclosed hfit =>
    rw [conn?_put hc] at hc'
    split at hc'
    · rename_i hf
      subst hf
      cases hc'
      exact hk ⟨_, hc, hl, (Tcb.act_peer ha).1.symm.trans hr⟩
    · exact hk ⟨c', hc', hl, hr⟩
  | connect hst ht ho h => exact hno _ _ _ ho
  | accept hnone hin hsyn ho hid h => exact hno _ _ _ ho
  | reject s hnone hin =>
    rename_i l r
    obtain ⟨-, -, -, -, hsock⟩ := outbound_emitRst k l r s
    rw [conn?, lookup, hsock] at hc'
    exact hk ⟨c', hc', hl, hr⟩
  | remove hrm =>
    rw [conn?_removeSocket] at hc'
    split at hc'
    · cases hc'
    · exact hk ⟨c', hc', hl, hr⟩
  | _ => exact hk ⟨c', hc', hl, hr⟩

section
variable (hg : g.sent.length < 2 ^ 31) (ho : o.sent.length < 2 ^ 31) (htook : g.Took o)
  (htook' : o.Took g)
include hg ho htook htook'

/-- **One step of the kernel of an end**, in which the application moves nothing at this end. -/
theorem AtEnd.step (hk : k.AtEnd loc rem fd g o)
    (harr : ∀ l r s, σ.arrives l r s → k.isLocal l.ip = true ∧ (l = loc → r = rem → s.Fine o g))
    (hact : ∀ c a, k.conn? fd = some c → c.Joins loc rem → σ.acts fd a → a.isSweep = true)
    (hopen : ∀ f, σ.opens loc rem f → f = fd) (h : KStep σ k k') :
    ∃ g', g.Turn g' ∧ k'.AtEnd loc rem fd g' o ∧ g'.Took o := by
  have hsound := hk.sound.step h
  have hhomed := hk.homed.step hk.sound (fun l r s hs => (harr l r s hs).1) h
  have haddr := h.cfg.2
  -- nothing happens to the connection, and what is sent is right
  have hframe : (∀ f, k'.conn? f = k.conn? f) → k.sockets.nextId ≤ k'.sockets.nextId →
      (fd < k.sockets.nextId → k.lookup fd = none → k'.lookup fd = none) →
      FineFrom loc rem g o k'.outbound →
      ∃ g', g.Turn g' ∧ k'.AtEnd loc rem fd g' o ∧ g'.Took o :=
    fun h1 h2 h3 h4 => ⟨g, .refl g, hk.frame hsound hhomed haddr h1 h2 h3 h4, htook⟩
  cases h with
  | quiet h =>
    refine hframe h.conn h.nextId (fun hlt hnone => ?_) (by rw [h.outbound]; exact hk.queued)
    cases hl : k'.lookup fd with
    | none => rfl
    | some st =>
      rcases h.known fd st hl with ⟨st', hst'⟩ | ⟨hge, -⟩
      · rw [hnone] at hst'
        cases hst'
      · exact absurd hlt (Nat.not_lt.mpr hge)
  | act hc ha hin hq hloc hclosed hfit =>
    rename_i f c t l r a segs closed
    obtain ⟨hpeer, hports⟩ := Tcb.act_peer ha
    -- what is sent goes between the ends of the connection that sends it
    have hends : segs ≠ [] ∨ (∃ s, a = .inbound s) → (c.Joins loc rem ↔ l = loc ∧ r = rem) := by
      intro hwhy
      by_cases hinb : ∃ s, a = .inbound s
      · obtain ⟨s, rfl⟩ := hinb
        exact hk.of_found (hin s rfl).1 hc
      · obtain ⟨hl, hr⟩ := hloc (hwhy.resolve_right hinb) fun s h => hinb ⟨s, h⟩
        unfold Conn.Joins
        rw [hl, hr, Option.some.injEq]
    by_cases hj : c.Joins loc rem
    · have hf := hk.sole f c hc hj
      subst hf
      have hopened := hk.opened hc hj
      have hkeep : ∃ g', g.Turn g' ∧ t.Tracks g' o ∧ (∀ seg ∈ segs, seg.Fine g' o) ∧ g'.Took o := by
        by_cases hinb : ∃ s, a = .inbound s
        · obtain ⟨s, rfl⟩ := hinb
          obtain ⟨hl, hr⟩ := (hends (Or.inr ⟨s, rfl⟩)).mp hj
          obtain ⟨g', hears, htracks, hsegs⟩ := (hk.tracks c hc hj).onSegment hopened hg ho htook
            htook' ((harr l r s (hin s rfl).2).2 hl hr) ha
          exact ⟨g', hears.turn, htracks, hsegs, hears.took⟩
        · have hsweep := hact c a hc hj (hq fun s h => hinb ⟨s, h⟩)
          obtain ⟨htracks, hsegs⟩ := (hk.tracks c hc hj).sweep hopened hg hsweep hfit ha
          exact ⟨g, .refl g, htracks, hsegs, htook⟩
      obtain ⟨g', hturn, htracks, hsegs, htook1⟩ := hkeep
      refine ⟨g', hturn, ?_, htook1⟩
      by_cases hnil : segs = []
      · subst hnil
        exact hk.put hc hj hturn.grows htracks hpeer hsegs hsound hhomed
      · obtain ⟨rfl, rfl⟩ := (hends (Or.inl hnil)).mp hj
        exact hk.put hc hj hturn.grows htracks hpeer hsegs hsound hhomed
    · refine ⟨g, .refl g, hk.aside hc hj hpeer (fun seg hseg => ?_) hsound hhomed, htook⟩
      refine ⟨?_, fun hends' => hj ((hends (Or.inl (List.ne_nil_of_mem hseg))).mpr hends')⟩
      rcases hports seg hseg with hport | ⟨hno, hport⟩
      · exact hport
      · rw [← (hloc (List.ne_nil_of_mem hseg) hno).2]
        exact hport
  | connect hst ht hopens h =>
    rename_i f st peer l
    refine hk.set htook hsound hhomed h ⟨rfl, rfl⟩ (fun hj => ?_) (fun hf => ?_) fun hj => ?_
    · obtain ⟨hl, rfl⟩ := hj
      cases h.endpoint.symm.trans hl
      exact hopen f hopens
    · subst hf
      cases hgo : g.opened with
      | false => rfl
      | true =>
        rcases (hk.started hgo).2 with hnone | ⟨c, hc, -⟩
        · rw [hnone] at hst
          cases hst
        · obtain ⟨st', hst', ht', -⟩ := conn?_eq_some.mp hc
          cases hst.symm.trans hst'
          rw [ht] at ht'
          cases ht'
    · exact ⟨k.tcpIsn + 1, .fresh rfl (fun h => absurd rfl h), Or.inr ⟨rfl, rfl, fun _ => rfl,
        fun h => absurd rfl h, nofun, nofun⟩⟩
  | accept hnone hin hsyn hopens hid h =>
    rename_i key l r s
    refine hk.set htook hsound hhomed h ⟨rfl, rfl⟩ (fun hj => ?_) (fun hf => ?_) fun hj => ?_
    · obtain ⟨hl, rfl⟩ := hj
      cases h.endpoint.symm.trans hl
      exact hopen _ hopens
    · cases hgo : g.opened with
      | false => rfl
      | true =>
        have := (hk.started hgo).1
        rw [← hf] at this
        exact absurd this (Nat.lt_irrefl _)
    · obtain ⟨hl, hr⟩ := hj
      have hregular : s.Regular o g := by
        rcases (harr l r s hin).2 (Option.some.inj (h.endpoint.symm.trans hl)) hr with
          ⟨-, hsyn'⟩ | ⟨-, hregular⟩
        · exact absurd (hsyn.1.symm.trans hsyn') (by decide)
        · exact hregular
      have hbase := hregular.syn hsyn.1
      exact ⟨k.tcpIsn + 1, .fresh rfl (fun _ => ⟨hregular.opened, hbase⟩), Or.inr ⟨rfl, rfl,
        fun _ => rfl, fun h => absurd rfl h, nofun,
        fun _ => ⟨hregular.opened, 0, Nat.zero_le _, hbase.trans (serial_zero _).symm⟩⟩⟩
  | reject s hnone hin =>
    rename_i l r
    obtain ⟨seg, hout, hrst, hsyn, hsock⟩ := outbound_emitRst k l r s
    refine hframe (fun f => ?_) (Nat.le_of_eq ?_) (fun _ hl => ?_) ?_
    · rw [conn?, conn?, lookup, hsock]
      rfl
    · rw [hsock]
    · rw [lookup, hsock]
      exact hl
    · rw [hout]
      refine hk.queued.append fun pkt hp s' hs' _ _ => ?_
      cases List.mem_singleton.mp hp
      cases hs'
      exact Or.inl ⟨hrst, hsyn⟩
  | reset hc hloc hrm =>
    refine hframe (fun _ => rfl) (Nat.le_refl _) (fun _ hl => hl) ?_
    refine hk.queued.append fun pkt hp s' hs' _ _ => ?_
    cases List.mem_singleton.mp hp
    cases hs'
    exact Or.inl ⟨rfl, rfl⟩
  | remove hrm => exact ⟨g, .refl g, hk.removed hsound hhomed, htook⟩
  | datagram src dst d =>
    refine hframe (fun _ => rfl) (Nat.le_refl _) (fun _ hl => hl) ?_
    refine hk.queued.append fun pkt hp s' hs' _ _ => ?_
    cases List.mem_singleton.mp hp
    cases hs'

/-- **A sequence of steps.**  The calls of the application are excluded, unless they are made before
the connection is there and do not set it up. -/
theorem AtEnd.steps (hk : k.AtEnd loc rem fd g o)
    (harr : ∀ l r s, σ.arrives l r s → k.isLocal l.ip = true ∧ (l = loc → r = rem → s.Fine o g))
    (hmode : (∀ a, σ.acts fd a → a.isSweep = true)
      ∨ (¬ k.Connected loc rem fd ∧ ∀ l r f, ¬ σ.opens l r f))
    (hopen : ∀ f, σ.opens loc rem f → f = fd) (h : KSteps σ k k') :
    ∃ g', g.Turn g' ∧ k'.AtEnd loc rem fd g' o ∧ g'.Took o := by
  have hstep : ∀ k1 k2 : Kernel, ((∃ g1, g.Turn g1 ∧ k1.AtEnd loc rem fd g1 o ∧ g1.Took o)
        ∧ k1.addresses = k.addresses ∧ ((∀ a, σ.acts fd a → a.isSweep = true)
          ∨ (¬ k1.Connected loc rem fd ∧ ∀ l r f, ¬ σ.opens l r f))) → KStep σ k1 k2 →
      (∃ g1, g.Turn g1 ∧ k2.AtEnd loc rem fd g1 o ∧ g1.Took o)
        ∧ k2.addresses = k.addresses ∧ ((∀ a, σ.acts fd a → a.isSweep = true)
          ∨ (¬ k2.Connected loc rem fd ∧ ∀ l r f, ¬ σ.opens l r f)) := by
    rintro k1 k2 ⟨⟨g1, hturn, hk1, htook1⟩, haddr, hmode1⟩ h
    refine ⟨?_, h.cfg.2.trans haddr, hmode1.imp id fun hno => ⟨?_, hno.2⟩⟩
    · have harr1 : ∀ l r s, σ.arrives l r s →
          k1.isLocal l.ip = true ∧ (l = loc → r = rem → s.Fine o g1) := by
        intro l r s hs
        obtain ⟨h1, h2⟩ := harr l r s hs
        rw [isLocal, haddr]
        exact ⟨h1, fun hl hr => (h2 hl hr).mono (.refl o) hturn.grows⟩
      have hact1 : ∀ c a, k1.conn? fd = some c → c.Joins loc rem → σ.acts fd a →
          a.isSweep = true := by
        intro c a hc hj ha
        rcases hmode1 with hall | ⟨hno, -⟩
        · exact hall a ha
        · exact absurd ⟨c, hc, hj⟩ hno
      obtain ⟨g2, hturn2, hk2, htook2⟩ := hk1.step (by rw [hturn.sent]; exact hg) ho htook1
        (htook'.mono hturn.grows) harr1 hact1 hopen h
      exact ⟨g2, hturn.trans hturn2, hk2, htook2⟩
    · exact not_connected_step hno.2 hno.1 h
  exact (h.invariant hstep ⟨⟨g, .refl g, hk, htook⟩, rfl, hmode⟩).1

/-- What `egress` may do to the connection: sweep. -/
def egressScope (k : Kernel) (rem : SocketAddr) : Scope :=
  ⟨fun l r _ => k.isLocal l.ip = true ∧ r ≠ rem, fun _ a => a.isSweep = true, fun _ r _ => r ≠ rem,
    fun _ => False⟩

/-- **A turn of `egress`**: what leaves is right, and comes from an address of the host. -/
theorem AtEnd.egress (hk : k.AtEnd loc rem fd g o) {fuel : Nat} {out : List Packet}
    (h : k.egress fuel = .ok (k', out)) : ∃ g', g.Turn g' ∧ k'.AtEnd loc rem fd g' o ∧ g'.Took o
      ∧ FineFrom loc rem g' o out
      ∧ ∀ pkt ∈ out, ∀ s, pkt.payload = .tcp s → k.isLocal pkt.src = true := by
  -- one step, from what the end has become by then
  have hone : ∀ {k1 k2 : Kernel} {g1 : Progress}, g.Turn g1 → k1.AtEnd loc rem fd g1 o → g1.Took o →
      k1.addresses = k.addresses → KStep (egressScope k rem) k1 k2 →
      ∃ g2, g1.Turn g2 ∧ k2.AtEnd loc rem fd g2 o ∧ g2.Took o := by
    intro k1 k2 g1 hturn hk1 htook1 haddr h
    have harr : ∀ l r s, (egressScope k rem).arrives l r s →
        k1.isLocal l.ip = true ∧ (l = loc → r = rem → s.Fine o g1) := by
      intro l r s hs
      rw [isLocal, haddr]
      exact ⟨hs.1, fun _ hr => absurd hr hs.2⟩
    exact hk1.step (by rw [hturn.sent]; exact hg) ho htook1 (htook'.mono hturn.grows) harr
      (fun _ _ _ _ ha => ha) (fun f hf => absurd rfl hf) h
  have hstep : ∀ k1 k2 : Kernel, (∃ g1, g.Turn g1 ∧ k1.AtEnd loc rem fd g1 o ∧ g1.Took o)
      ∧ k1.addresses = k.addresses → KStep (egressScope k rem) k1 k2 →
      (∃ g1, g.Turn g1 ∧ k2.AtEnd loc rem fd g1 o ∧ g1.Took o) ∧ k2.addresses = k.addresses := by
    rintro k1 k2 ⟨⟨g1, hturn, hk1, htook1⟩, haddr⟩ h
    obtain ⟨g2, hturn2, hk2, htook2⟩ := hone hturn hk1 htook1 haddr h
    exact ⟨⟨g2, hturn.trans hturn2, hk2, htook2⟩, h.cfg.2.trans haddr⟩
  have hdrain : ∀ k1 : Kernel, (∃ g1, g.Turn g1 ∧ k1.AtEnd loc rem fd g1 o ∧ g1.Took o)
      ∧ k1.addresses = k.addresses → (∃ g1, g.Turn g1
        ∧ ({ k1 with outbound := [] } : Kernel).AtEnd loc rem fd g1 o ∧ g1.Took o)
      ∧ k1.addresses = k.addresses := by
    rintro k1 ⟨⟨g1, hturn, hk1, htook1⟩, haddr⟩
    exact ⟨⟨g1, hturn, hk1.drained, htook1⟩, haddr⟩
  have hsteps : ESteps (egressScope k rem) (k, []) (k', out) := by
    refine egress_steps (fun _ _ ha _ => ha) (fun _ _ _ _ _ => rfl) hstep hdrain ?_
      ⟨⟨g, .refl g, hk, htook⟩, rfl⟩ h
    rintro k1 ⟨⟨g1, hturn, hk1, htook1⟩, haddr⟩ pkt hp hlocal s hs
    -- a packet of this host does not come from the other one
    have hne : (⟨pkt.src, s.srcPort⟩ : SocketAddr) ≠ rem := by
      intro heq
      have hsrc := hk1.homed.queued pkt hp s hs
      have hfar := hk1.far
      rw [← heq] at hfar
      exact absurd (hsrc.symm.trans hfar) (by decide)
    rw [isLocal, haddr] at hlocal
    exact ⟨⟨hlocal, hne⟩, fun _ => hne⟩
  have hinv : ∀ x : Kernel × List Packet, ESteps (egressScope k rem) (k, []) x →
      ∃ g1, g.Turn g1 ∧ x.1.AtEnd loc rem fd g1 o ∧ g1.Took o ∧ x.1.addresses = k.addresses
        ∧ FineFrom loc rem g1 o x.2
        ∧ ∀ pkt ∈ x.2, ∀ s, pkt.payload = .tcp s → k.isLocal pkt.src = true := by
    intro x hx
    induction hx with
    | refl => exact ⟨g, .refl g, hk, htook, rfl, List.forall_mem_nil _,
        List.forall_mem_nil _⟩
    | tail _ hlast ih =>
      obtain ⟨g1, hturn, hk1, htook1, haddr, hfine, hsrc⟩ := ih
      cases hlast with
      | inner h =>
        obtain ⟨g2, hturn2, hk2, htook2⟩ := hone hturn hk1 htook1 haddr h
        exact ⟨g2, hturn.trans hturn2, hk2, htook2, h.cfg.2.trans haddr,
          hfine.mono hturn2.grows (.refl o), hsrc⟩
      | drain =>
        refine ⟨g1, hturn, hk1.drained, htook1, haddr, hfine.append fun pkt hp =>
          hk1.queued pkt (List.mem_of_mem_filter hp), fun pkt hp s hs => ?_⟩
        rcases List.mem_append.mp hp with hp | hp
        · exact hsrc pkt hp s hs
        · have := hk1.homed.queued pkt (List.mem_of_mem_filter hp) s hs
          rwa [isLocal, haddr] at this
  obtain ⟨g1, hturn, hk1, htook1, -, hfine, hsrc⟩ := hinv _ hsteps
  exact ⟨g1, hturn, hk1, htook1, hfine, hsrc⟩

end

/-! ## 4. The calls that move bytes -/

/-- A call leaves the addresses alone. -/
theorem Homed.call (hk : k.Homed) (hs : k.Sound) {c : Syscall} {r : Reply}
    (h : k.syscall c = .ok (k', r)) : k'.Sound ∧ k'.Homed := by
  have hstep : ∀ k1 k2 : Kernel, k1.Sound ∧ k1.Homed → KStep (callScope k k' c) k1 k2 →
      k2.Sound ∧ k2.Homed := by
    intro k1 k2 hk1 h1
    refine ⟨hk1.1.step h1, hk1.2.step hk1.1 (fun l r s hs => ?_) h1⟩
    cases c <;> cases hs
  exact (syscall_steps hs h).invariant hstep ⟨hs, hk⟩

section
variable {st : Socket} {t : Tcb} {r : Reply}
variable (hst : k.lookup fd = some st) (ht : st.tcb = some t)
include hst ht

omit ht in
theorem setTcb_eq (t' : Tcb) (l r : SocketAddr) :
    k.setTcb fd t' = (k.putTcb fd t' st.fdClosed).emitAll l r [] :=
  setTcb_eq_putTcb hst t'

theorem send_eq (hty : st.ty = .stream) {buf : List UInt8}
    (h : k.syscall (.send fd buf) = .ok (k', r)) :
    k' = k.setTcb fd (t.pollSend k.cfg.sendBufCap buf).1
      ∧ r = .size (t.pollSend k.cfg.sendBufCap buf).2 := by
  obtain ⟨⟨k1, r1⟩, h1, h⟩ := bind_eq_ok.mp h
  cases h
  simp only [pollSend, hst, hty, tcpPollSend, ht] at h1
  cases h1
  exact ⟨rfl, rfl⟩

theorem shutdown_eq (hty : st.ty = .stream) (h : k.syscall (.shutdown fd) = .ok (k', r)) :
    k' = k.setTcb fd t.pollShutdownWrite.1 ∧ r = .status t.pollShutdownWrite.2 := by
  obtain ⟨⟨k1, r1⟩, h1, h⟩ := bind_eq_ok.mp h
  cases h
  simp only [pollShutdownWrite, hst, hty, tcpPollShutdownWrite, ht] at h1
  cases h1
  exact ⟨rfl, rfl⟩

/-- A read is the same, whether a buffer is filled or several. -/
theorem tcpPollRecv_eq {lens : List Nat} {loc : SocketAddr} (hloc : boundEndpoint st = .ok loc)
    {r : Poll (Except NetError (List UInt8))}
    (h : k.tcpPollRecvVectored fd lens = .ok (k', r)) :
    k' = (k.putTcb fd (t.pollRecvVectored k.cfg.recvBufCap lens).1 st.fdClosed).emitAll loc t.peer
        (if (t.pollRecvVectored k.cfg.recvBufCap lens).2.2 then
          [(t.pollRecvVectored k.cfg.recvBufCap lens).1.ackSegment k.cfg.recvBufCap loc t.peer]
          else [])
      ∧ r = (t.pollRecvVectored k.cfg.recvBufCap lens).2.1 := by
  simp only [tcpPollRecvVectored, hst, ht] at h
  have hcase := Tcb.pollRecvVectored_case k.cfg.recvBufCap t lens
  generalize t.pollRecvVectored k.cfg.recvBufCap lens = R at h hcase ⊢
  obtain ⟨t1, r1, update⟩ := R
  have hpeer : t1.peer = t.peer := by
    cases hcase <;> rfl
  split at h
  · rename_i hcond
    cases h
    -- nothing was read
    have hidle : t1 = t ∧ update = false := by
      cases hcase with
      | read out rest hsplit hout hlive hne => simp [hlive, hne] at hcond
      | eof => exact ⟨rfl, rfl⟩
      | refused => exact ⟨rfl, rfl⟩
    obtain ⟨rfl, rfl⟩ := hidle
    refine ⟨?_, rfl⟩
    rw [if_neg Bool.false_ne_true, ← setTcb_eq hst, setTcb_self hst ht]
  · obtain ⟨loc', hloc', h⟩ := bind_eq_ok.mp h
    cases hloc.symm.trans hloc'
    cases h
    refine ⟨?_, rfl⟩
    cases update with
    | false => exact setTcb_eq_putTcb hst t1
    | true =>
      rw [setTcb_eq_putTcb hst, hpeer]
      rfl

end

end Kernel

namespace Syscall

/-- The calls that move the bytes of a stream, or end it. -/
def Moves (c : Syscall) (fd : Fd) : Prop :=
  (∃ buf, c = .send fd buf) ∨ (∃ len, c = .recv fd len) ∨ (∃ lens, c = .tryRecvVectored fd lens)
    ∨ c = .shutdown fd ∨ c = .close fd

variable {c : Syscall} {fd : Fd}

theorem sent_of_not_moves (h : ¬ c.Moves fd) (r : Reply) : c.sent fd r = [] := by
  unfold sent
  split
  · rename_i f buf n
    refine if_neg fun hf => h (Or.inl ⟨buf, ?_⟩)
    rw [hf]
  · rfl

theorem read_of_not_moves (h : ¬ c.Moves fd) (r : Reply) : c.read fd r = [] := by
  unfold read
  split
  · rename_i f len bytes
    refine if_neg fun hf => h (Or.inr (Or.inl ⟨len, ?_⟩))
    rw [hf]
  · rename_i f lens bytes
    refine if_neg fun hf => h (Or.inr (Or.inr (Or.inl ⟨lens, ?_⟩)))
    rw [hf]
  · rfl

theorem shuts_of_not_moves (h : ¬ c.Moves fd) (r : Reply) : c.shuts fd r = false := by
  unfold shuts
  split
  · refine beq_eq_false_iff_ne.mpr fun hf => h (Or.inr (Or.inr (Or.inr (Or.inl ?_))))
    rw [hf]
  · refine beq_eq_false_iff_ne.mpr fun hf => h (Or.inr (Or.inr (Or.inr (Or.inr ?_))))
    rw [hf]
  · rfl

/-- Either read returns what it takes. -/
theorem read_self (fd : Fd) (len : Nat) (lens : List Nat) {out : List UInt8}
    {r : Poll (Except NetError (List UInt8))} (hout : ∀ bytes, r = .ready (.ok bytes) → out = bytes)
    (hnone : (∀ bytes, r ≠ .ready (.ok bytes)) → out = []) :
    (Syscall.recv fd len).read fd (.bytes r) = out
      ∧ (Syscall.tryRecvVectored fd lens).read fd (.bytes r) = out := by
  cases r with
  | pending =>
    rw [hnone nofun]
    exact ⟨rfl, rfl⟩
  | ready r =>
    cases r with
    | error e =>
      rw [hnone nofun]
      exact ⟨rfl, rfl⟩
    | ok bytes =>
      rw [hout bytes rfl]
      exact ⟨if_pos rfl, if_pos rfl⟩

/-- No other call acts on the connection. -/
theorem moves_of_acts {k k' : Kernel} {a : TcbAct} (h : (Kernel.callScope k k' c).acts fd a) :
    c.Moves fd := by
  cases c with
  | send f buf => exact Or.inl ⟨buf, by rw [h.1]⟩
  | recv f len => exact Or.inr (Or.inl ⟨len, by rw [h.1]⟩)
  | tryRecvVectored f lens => exact Or.inr (Or.inr (Or.inl ⟨lens, by rw [h.1]⟩))
  | shutdown f => exact Or.inr (Or.inr (Or.inr (Or.inl (by rw [h.1]))))
  | close f => exact Or.inr (Or.inr (Or.inr (Or.inr (by rw [h.1]))))
  | _ => cases h

end Syscall

/-- What a call has done to an end. -/
structure Progress.Calls (fd : Fd) (c : Syscall) (r : Reply) (g g' : Progress) : Prop where
  grows : g.Grows g'
  sent : g'.sent = g.sent ++ c.sent fd r
  read : g'.read = g.read ++ c.read fd r
  shut : g'.shut = (g.shut || c.shuts fd r)

/-- The call was none of those that count. -/
theorem Progress.Turn.calls {fd : Fd} {c : Syscall} {r : Reply} {g g' : Progress} (h : g.Turn g')
    (h1 : c.sent fd r = []) (h2 : c.read fd r = []) (h3 : c.shuts fd r = false) :
    g.Calls fd c r g' :=
  ⟨h.grows, by rw [h1, List.append_nil]; exact h.sent, by rw [h2, List.append_nil]; exact h.read,
    by rw [h3, Bool.or_false]; exact h.shut⟩

namespace Kernel

variable {k k' : Kernel} {loc rem : SocketAddr} {fd : Fd} {g o : Progress}

/-- The socket of the connection. -/
theorem AtEnd.socket (hk : k.AtEnd loc rem fd g o) (hconn : k.Connected loc rem fd) :
    ∃ st t, k.lookup fd = some st ∧ st.tcb = some t ∧ st.ty = .stream ∧ boundEndpoint st = .ok loc
      ∧ t.peer = rem ∧ t.Tracks g o ∧ k.conn? fd = some ⟨st.bound, t, st.fdClosed⟩
      ∧ Conn.Joins ⟨st.bound, t, st.fdClosed⟩ loc rem := by
  obtain ⟨c, hc, hl, hr⟩ := hconn
  obtain ⟨st, hst, ht, hb, hf⟩ := conn?_eq_some.mp hc
  obtain ⟨key, hkey, hloc⟩ := Option.map_eq_some_iff.mp hl
  have hty := hk.sound.streams fd st hst (by rw [ht]; rfl)
  have hend : boundEndpoint st = .ok loc := by
    rw [boundEndpoint, hb.trans hkey, ← hloc]
    rfl
  refine ⟨st, c.tcb, hst, ht, hty, hend, hr, hk.tracks c hc ⟨hl, hr⟩, ?_, ?_⟩
  · rw [hb, hf]
    exact hc
  · rw [hb]
    exact ⟨hl, hr⟩

/-- The descriptor is gone, and so the stream has ended. -/
theorem AtEnd.closed (hk : k.AtEnd loc rem fd g o) (hopened : g.opened = true)
    (hnone : k.lookup fd = none) : k.AtEnd loc rem fd { g with shut := true } o := by
  have hconn : k.conn? fd = none := by
    rw [conn?, hnone]
    rfl
  refine ⟨hk.sound, hk.homed, hk.far, hk.sole, hk.started, fun hno => ?_, fun c hc => ?_,
    hk.queued.mono ⟨fun h => ⟨h, rfl⟩, List.prefix_rfl, fun _ => ⟨rfl, rfl⟩, Nat.le_refl _,
      fun h => ⟨h, rfl⟩⟩ (.refl o)⟩
  · change g.opened = false at hno
    rw [hopened] at hno
    cases hno
  · rw [hconn] at hc
    cases hc

section
variable (htook : g.Took o) {r : Reply}
include htook

theorem AtEnd.send (hk : k.AtEnd loc rem fd g o) (hconn : k.Connected loc rem fd) {buf : List UInt8}
    (h : k.syscall (.send fd buf) = .ok (k', r)) :
    ∃ g', g.Calls fd (.send fd buf) r g' ∧ k'.AtEnd loc rem fd g' o ∧ g'.Took o := by
  obtain ⟨st, t, hst, ht, hty, -, -, htracks, hc, hj⟩ := hk.socket hconn
  obtain ⟨hsound, hhomed⟩ := hk.homed.call hk.sound h
  obtain ⟨rfl, rfl⟩ := send_eq hst ht hty h
  have hpeer : (t.pollSend k.cfg.sendBufCap buf).1.peer = t.peer := by
    have hcase := Tcb.pollSend_case k.cfg.sendBufCap t buf
    generalize t.pollSend k.cfg.sendBufCap buf = R at hcase ⊢
    cases hcase <;> rfl
  rw [setTcb_eq hst _ loc rem] at hsound hhomed ⊢
  by_cases hok : ∃ n, (t.pollSend k.cfg.sendBufCap buf).2 = .ready (.ok n)
  · obtain ⟨n, hn⟩ := hok
    obtain ⟨htracks', hgrows⟩ := htracks.pollSend hn
    have hsent : (Syscall.send fd buf).sent fd (.size (t.pollSend k.cfg.sendBufCap buf).2)
        = buf.take n := by
      rw [hn]
      exact if_pos rfl
    refine ⟨_, ⟨hgrows, by rw [hsent], (List.append_nil _).symm, (Bool.or_false _).symm⟩,
      hk.put hc hj hgrows htracks' hpeer (List.forall_mem_nil _) hsound hhomed,
      ⟨htook.got, htook.fin, htook.read⟩⟩
  · have hsame : (t.pollSend k.cfg.sendBufCap buf).1 = t := by
      have hcase := Tcb.pollSend_case k.cfg.sendBufCap t buf
      generalize t.pollSend k.cfg.sendBufCap buf = R at hcase hok ⊢
      cases hcase with
      | accepted => exact absurd ⟨_, rfl⟩ hok
      | refused => rfl
    have hsent : (Syscall.send fd buf).sent fd (.size (t.pollSend k.cfg.sendBufCap buf).2)
        = [] := by
      unfold Syscall.sent
      split
      · rename_i hs hr
        exact absurd ⟨_, Reply.size.inj hr⟩ hok
      · rfl
    exact ⟨g, (Progress.Turn.refl g).calls hsent rfl rfl,
      hk.put hc hj (.refl g) (by rw [hsame]; exact htracks) hpeer (List.forall_mem_nil _) hsound
        hhomed, htook⟩

theorem AtEnd.shutdown (hk : k.AtEnd loc rem fd g o) (hconn : k.Connected loc rem fd)
    (h : k.syscall (.shutdown fd) = .ok (k', r)) :
    ∃ g', g.Calls fd (.shutdown fd) r g' ∧ k'.AtEnd loc rem fd g' o ∧ g'.Took o := by
  obtain ⟨st, t, hst, ht, hty, -, -, htracks, hc, hj⟩ := hk.socket hconn
  obtain ⟨hsound, hhomed⟩ := hk.homed.call hk.sound h
  obtain ⟨rfl, rfl⟩ := shutdown_eq hst ht hty h
  rw [setTcb_eq hst _ loc rem] at hsound hhomed ⊢
  cases hlive : t.abortError with
  | some e =>
    have heq : t.pollShutdownWrite = (t, .ready (.error e)) := by
      rw [Tcb.pollShutdownWrite, hlive]
    rw [heq] at hsound hhomed ⊢
    exact ⟨g, (Progress.Turn.refl g).calls rfl rfl rfl,
      hk.put hc hj (.refl g) htracks rfl (List.forall_mem_nil _) hsound hhomed, htook⟩
  | none =>
    have hlive' := Tcb.abortError_eq_none.mp hlive
    cases hw : t.wrClosed with
    | true =>
      have heq : t.pollShutdownWrite = (t, .ready (.ok ())) := by
        rw [Tcb.pollShutdownWrite, hlive]
        exact if_pos hw
      rw [heq] at hsound hhomed ⊢
      obtain ⟨u, n, hsend, -⟩ := htracks.live hlive'
      refine ⟨g, ⟨.refl g, (List.append_nil _).symm, (List.append_nil _).symm, ?_⟩,
        hk.put hc hj (.refl g) htracks rfl (List.forall_mem_nil _) hsound hhomed, htook⟩
      rw [← hsend.closed, hw]
      rfl
    | false =>
      have heq := Tcb.pollShutdownWrite_of_open hlive hw
      rw [heq] at hsound hhomed ⊢
      obtain ⟨htracks', hgrows⟩ := htracks.shutWrite hlive' hw
      refine ⟨_, ⟨hgrows, (List.append_nil _).symm, (List.append_nil _).symm, ?_⟩,
        hk.put hc hj hgrows htracks' rfl (List.forall_mem_nil _) hsound hhomed,
        ⟨htook.got, htook.fin, htook.read⟩⟩
      show true = (g.shut || (fd == fd))
      rw [beq_self_eq_true, Bool.or_true]

/-- A read, which takes what it returns from the stream. -/
theorem AtEnd.recv (hk : k.AtEnd loc rem fd g o) (hconn : k.Connected loc rem fd) {lens : List Nat}
    {r : Poll (Except NetError (List UInt8))} (hkeep : k'.Sound ∧ k'.Homed)
    (h : k.tcpPollRecvVectored fd lens = .ok (k', r)) :
    ∃ out, (∀ bytes, r = .ready (.ok bytes) → out = bytes)
      ∧ ((∀ bytes, r ≠ .ready (.ok bytes)) → out = [])
      ∧ k'.AtEnd loc rem fd { g with read := g.read ++ out } o
      ∧ ({ g with read := g.read ++ out } : Progress).Took o := by
  obtain ⟨st, t, hst, ht, -, hend, hpeer, htracks, hc, hj⟩ := hk.socket hconn
  obtain ⟨hsound, hhomed⟩ := hkeep
  obtain ⟨rfl, rfl⟩ := tcpPollRecv_eq hst ht hend h
  have hpeer' : (t.pollRecvVectored k.cfg.recvBufCap lens).1.peer = t.peer := by
    have hcase := Tcb.pollRecvVectored_case k.cfg.recvBufCap t lens
    generalize t.pollRecvVectored k.cfg.recvBufCap lens = R at hcase ⊢
    cases hcase <;> rfl
  rw [hpeer] at hsound hhomed ⊢
  by_cases hok : ∃ out, (t.pollRecvVectored k.cfg.recvBufCap lens).2.1 = .ready (.ok out)
  · obtain ⟨out, hout⟩ := hok
    obtain ⟨htracks', htook', hack⟩ := htracks.pollRecv htook (hk.opened hc hj) hout loc rem
    have hgrows : g.Grows { g with read := g.read ++ out } :=
      ⟨fun h => ⟨h, rfl⟩, List.prefix_rfl, fun h => ⟨h, rfl⟩, Nat.le_refl _, fun h => ⟨h, rfl⟩⟩
    refine ⟨out, fun bytes hb => ?_, fun hno => absurd hout (hno out),
      hk.put hc hj hgrows htracks' hpeer' (fun seg hseg => ?_) hsound hhomed, htook'⟩
    · rw [hout] at hb
      cases hb
      rfl
    · split at hseg
      · rename_i hupdate
        cases List.mem_singleton.mp hseg
        exact (hack hupdate).mono hgrows (.refl o)
      · cases hseg
  · have hsame : (t.pollRecvVectored k.cfg.recvBufCap lens).1 = t
        ∧ (t.pollRecvVectored k.cfg.recvBufCap lens).2.2 = false := by
      have hcase := Tcb.pollRecvVectored_case k.cfg.recvBufCap t lens
      generalize t.pollRecvVectored k.cfg.recvBufCap lens = R at hcase hok ⊢
      cases hcase with
      | refused => exact ⟨rfl, rfl⟩
      | eof => exact ⟨rfl, rfl⟩
      | read => exact absurd ⟨_, rfl⟩ hok
    refine ⟨[], fun bytes hb => absurd ⟨bytes, hb⟩ hok, fun _ => rfl, ?_, ?_⟩
    · rw [List.append_nil]
      refine hk.put hc hj (.refl g) (by rw [hsame.1]; exact htracks) hpeer' ?_ hsound hhomed
      rw [if_neg (by rw [hsame.2]; exact Bool.false_ne_true)]
      exact List.forall_mem_nil _
    · rw [List.append_nil]
      exact htook

/-- Closing the descriptor ends the stream: it is reset, or lingers. -/
theorem AtEnd.close (hk : k.AtEnd loc rem fd g o) (hconn : k.Connected loc rem fd)
    (h : k.syscall (.close fd) = .ok (k', r)) :
    ∃ g', g.Calls fd (.close fd) r g' ∧ k'.AtEnd loc rem fd g' o ∧ g'.Took o := by
  obtain ⟨st, t, hst, ht, hty, hend, -, htracks, hc, hj⟩ := hk.socket hconn
  obtain ⟨hsound, hhomed⟩ := hk.homed.call hk.sound h
  have hopened := hk.opened hc hj
  have hends : g.Calls fd (.close fd) r { g with shut := true } := by
    refine ⟨⟨fun h => ⟨h, rfl⟩, List.prefix_rfl, fun _ => ⟨rfl, rfl⟩, Nat.le_refl _,
      fun h => ⟨h, rfl⟩⟩, (List.append_nil _).symm, (List.append_nil _).symm, ?_⟩
    show true = (g.shut || (fd == fd))
    rw [beq_self_eq_true, Bool.or_true]
  have htook' : ({ g with shut := true } : Progress).Took o := ⟨htook.got, htook.fin, htook.read⟩
  obtain ⟨k1, h1, h⟩ := bind_eq_ok.mp h
  cases h
  obtain ⟨⟨k2, reap⟩, h2, h1⟩ := bind_eq_ok.mp h1
  simp only [onClose, hst, hty, ht] at h2
  -- the socket is removed, after a segment that is right whatever happens
  have hgone : ∀ {k3 : Kernel}, k3.AtEnd loc rem fd g o → k' = k3.removeSocket fd →
      k'.AtEnd loc rem fd { g with shut := true } o := by
    rintro k3 hk3 rfl
    refine (hk3.removed hsound hhomed).closed hopened ?_
    rw [lookup_removeSocket, if_pos rfl]
  refine ⟨_, hends, ?_, htook'⟩
  split at h2
  · rename_i hactive
    simp only [closesActively, Bool.and_eq_true, Bool.not_eq_true'] at hactive
    have hlive : t.aborted = false := by
      rw [Tcb.aborted, hactive.1.1.1, hactive.1.1.2]
      rfl
    split at h2
    · obtain ⟨loc', hloc', h2⟩ := bind_eq_ok.mp h2
      cases hend.symm.trans hloc'
      cases h2
      cases h1
      have hstep : KStep ⟨fun _ _ _ => False, fun _ _ => False, fun _ _ _ => False, fun _ => True⟩ k
          (k.emit loc t.peer (t.rstSegment loc t.peer)) :=
        .reset (conn?_of_lookup hst ht) (loc?_of_boundEndpoint hend) trivial
      have hhomed' := hk.homed.step hk.sound (fun _ _ _ => False.elim) hstep
      refine hgone (hk.frame (hk.sound.step hstep) hhomed' rfl (fun _ => rfl)
        (Nat.le_refl _) (fun _ hl => hl) (hk.queued.append ?_)) rfl
      intro pkt hp s hs _ _
      cases List.mem_singleton.mp hp
      cases hs
      exact Or.inl ⟨rfl, rfl⟩
    · cases h2
      cases h1
      cases hw : t.wrClosed with
      | true =>
        simp only [hw, if_true] at hsound hhomed ⊢
        obtain ⟨u, n, hsend, -⟩ := htracks.live hlive
        have hshut : ({ g with shut := true } : Progress) = g := by
          rw [← hsend.closed.symm.trans hw]
        rw [hshut]
        show ((k.putTcb fd t true).emitAll loc rem []).AtEnd loc rem fd g o
        exact hk.put hc hj (.refl g) htracks rfl (List.forall_mem_nil _) hsound hhomed
      | false =>
        simp only [hw, if_false, Bool.false_eq_true] at hsound hhomed ⊢
        obtain ⟨htracks', hgrows⟩ := htracks.shutWrite hlive hw
        show ((k.putTcb fd t.shutWrite true).emitAll loc rem []).AtEnd loc rem fd _ o
        exact hk.put hc hj hgrows htracks' rfl (List.forall_mem_nil _) hsound hhomed
  · cases h2
    cases h1
    exact hgone hk rfl

theorem AtEnd.moves (hk : k.AtEnd loc rem fd g o) (hconn : k.Connected loc rem fd) {c : Syscall}
    (hc : c.Moves fd) (h : k.syscall c = .ok (k', r)) :
    ∃ g', g.Calls fd c r g' ∧ k'.AtEnd loc rem fd g' o ∧ g'.Took o := by
  have hkeep := hk.homed.call hk.sound h
  obtain ⟨st, t, hst, -, hty, -⟩ := hk.socket hconn
  have hreads : ∀ out, g.Grows { g with read := g.read ++ out } := fun out =>
    ⟨fun h => ⟨h, rfl⟩, List.prefix_rfl, fun h => ⟨h, rfl⟩, Nat.le_refl _, fun h => ⟨h, rfl⟩⟩
  rcases hc with ⟨buf, rfl⟩ | ⟨len, rfl⟩ | ⟨lens, rfl⟩ | rfl | rfl
  · exact hk.send htook hconn h
  · obtain ⟨⟨k1, r1⟩, h1, h⟩ := bind_eq_ok.mp h
    cases h
    simp only [pollRecv, hst, hty] at h1
    obtain ⟨out, hout, hnone, hk', htook'⟩ := hk.recv htook hconn hkeep h1
    have hread := (Syscall.read_self fd len [len] hout hnone).1
    exact ⟨_, ⟨hreads out, (List.append_nil _).symm, by rw [hread], (Bool.or_false _).symm⟩, hk',
      htook'⟩
  · obtain ⟨⟨k1, r1⟩, h1, h⟩ := bind_eq_ok.mp h
    cases h
    simp only [tryRecvVectored, hst, hty, ne_eq, not_true_eq_false, if_false] at h1
    obtain ⟨⟨k2, r2⟩, h2, h1⟩ := bind_eq_ok.mp h1
    -- `WouldBlock` takes the place of `Pending`
    have hreply : k' = k2 ∧ (r2 = .ready r1 ∨ r2 = .pending ∧ r1 = .error .wouldBlock) := by
      cases r2 with
      | pending =>
        cases h1
        exact ⟨rfl, Or.inr ⟨rfl, rfl⟩⟩
      | ready r2 =>
        cases h1
        exact ⟨rfl, Or.inl rfl⟩
    obtain ⟨rfl, hr1⟩ := hreply
    obtain ⟨out, hout, hnone, hk', htook'⟩ := hk.recv htook hconn hkeep h2
    have hread : (Syscall.tryRecvVectored fd lens).read fd (.bytes (.ready r1)) = out := by
      rcases hr1 with rfl | ⟨rfl, rfl⟩
      · exact (Syscall.read_self fd 0 lens hout hnone).2
      · exact (hnone nofun).symm
    exact ⟨_, ⟨hreads out, (List.append_nil _).symm, by rw [hread], (Bool.or_false _).symm⟩, hk',
      htook'⟩
  · exact hk.shutdown htook hconn h
  · exact hk.close htook hconn h

/-- **A read that reports the end of the stream** is right: the other end has shut it, and
everything was read. -/
theorem AtEnd.ends (hk : k.AtEnd loc rem fd g o) (hconn : k.Connected loc rem fd) {c : Syscall}
    (h : k.syscall c = .ok (k', r)) (hends : c.ends fd r = true) :
    o.shut = true ∧ g.read = o.sent := by
  obtain ⟨st, t, hst, ht, hty, hend, -, htracks, -⟩ := hk.socket hconn
  have hread : ∀ {lens : List Nat}, (∃ len ∈ lens, 0 < len) →
      k.tcpPollRecvVectored fd lens = .ok (k', .ready (.ok [])) → o.shut = true ∧ g.read = o.sent :=
    fun hlens h => htracks.endOfStream htook hlens (tcpPollRecv_eq hst ht hend h).2.symm
  unfold Syscall.ends at hends
  split at hends
  · rename_i f len
    obtain ⟨hf, hlen⟩ := Bool.and_eq_true_iff.mp hends
    cases eq_of_beq hf
    obtain ⟨⟨k1, r1⟩, h1, h⟩ := bind_eq_ok.mp h
    cases h
    simp only [pollRecv, hst, hty] at h1
    exact hread ⟨len, List.mem_singleton_self len, of_decide_eq_true hlen⟩ h1
  · rename_i f lens
    obtain ⟨hf, hlens⟩ := Bool.and_eq_true_iff.mp hends
    cases eq_of_beq hf
    obtain ⟨⟨k1, r1⟩, h1, h⟩ := bind_eq_ok.mp h
    cases h
    simp only [tryRecvVectored, hst, hty, ne_eq, not_true_eq_false, if_false] at h1
    obtain ⟨⟨k2, r2⟩, h2, h1⟩ := bind_eq_ok.mp h1
    obtain ⟨len, hmem, hlen⟩ := List.any_eq_true.mp hlens
    cases r2 with
    | pending => cases h1
    | ready r2 =>
      cases h1
      exact hread ⟨len, hmem, of_decide_eq_true hlen⟩ h2
  · cases hends

section
variable (hg : g.sent.length < 2 ^ 31) (ho : o.sent.length < 2 ^ 31) (htook' : o.Took g)
include hg ho htook'

/-- **A call**, whichever it is. -/
theorem AtEnd.call (hk : k.AtEnd loc rem fd g o) {c : Syscall} (h : k.syscall c = .ok (k', r))
    (hsole : ∀ f, k'.Connected loc rem f → f = fd) :
    ∃ g', (k.Connected loc rem fd → g.Calls fd c r g') ∧ (¬ k.Connected loc rem fd → g.Turn g')
      ∧ k'.AtEnd loc rem fd g' o ∧ g'.Took o := by
  have hsteps := syscall_steps hk.sound h
  have harr : ∀ l r s, (callScope k k' c).arrives l r s →
      k.isLocal l.ip = true ∧ (l = loc → r = rem → s.Fine o g) := by
    intro l r s hs
    cases c <;> cases hs
  have hopen : ∀ f, (callScope k k' c).opens loc rem f → f = fd := by
    intro f hf
    cases c with
    | connect f' peer => exact hsole f hf
    | _ => cases hf
  by_cases hmoves : c.Moves fd
  · by_cases hconn : k.Connected loc rem fd
    · obtain ⟨g', hcalls, hk', htook1⟩ := hk.moves htook hconn hmoves h
      exact ⟨g', fun _ => hcalls, absurd hconn, hk', htook1⟩
    · have hnone : ∀ l r f, ¬ (callScope k k' c).opens l r f := by
        intro l r f hf
        rcases hmoves with ⟨buf, rfl⟩ | ⟨len, rfl⟩ | ⟨lens, rfl⟩ | rfl | rfl <;> cases hf
      obtain ⟨g', hturn, hk', htook1⟩ := hk.steps hg ho htook htook' harr (Or.inr ⟨hconn, hnone⟩)
        hopen hsteps
      exact ⟨g', fun h => absurd h hconn, fun _ => hturn, hk', htook1⟩
  · obtain ⟨g', hturn, hk', htook1⟩ := hk.steps hg ho htook htook' harr
      (Or.inl fun a ha => absurd (Syscall.moves_of_acts ha) hmoves) hopen hsteps
    exact ⟨g', fun _ => hturn.calls (Syscall.sent_of_not_moves hmoves r)
      (Syscall.read_of_not_moves hmoves r) (Syscall.shuts_of_not_moves hmoves r), fun _ => hturn,
      hk', htook1⟩

/-- **A packet** of the other end, or any packet that is not between the two addresses. -/
theorem AtEnd.deliver (hk : k.AtEnd loc rem fd g o) {pkt : Packet}
    (hlocal : k.isLocal pkt.dst = true) (hfine : FineFrom rem loc o g [pkt])
    (h : k.deliver pkt = .ok k') (hsole : ∀ f, k'.Connected loc rem f → f = fd) :
    ∃ g', g.Turn g' ∧ k'.AtEnd loc rem fd g' o ∧ g'.Took o := by
  have hsteps : KSteps ⟨fun l r s => pkt.payload = .tcp s ∧ l = ⟨pkt.dst, s.dstPort⟩
      ∧ r = ⟨pkt.src, s.srcPort⟩, fun _ _ => False, k'.Connected, fun _ => False⟩ k k' :=
    deliver_steps (fun s hs => ⟨hs, rfl, rfl⟩) (fun _ _ _ => id) h
  refine hk.steps hg ho htook htook' (fun l r s hs => ?_) (Or.inl fun _ => False.elim) hsole hsteps
  obtain ⟨hs, rfl, rfl⟩ := hs
  exact ⟨hlocal, fun hl hr => hfine pkt (List.mem_singleton_self pkt) s hs hr hl⟩

end

end

end Kernel

end Turmoil.Net
