/-
# The tables of every host agree

The calls of the application keep the invariant of `Net.Table`, each for the handle that can make
it: this is where it matters that a socket is put to listen once, connected to one peer, and closed
by the one who holds it.  With the two ends of the stack (`Net.Expects`) that is every step of a
host, and so every run.
-/
import Turmoil.Net.Expects

namespace Turmoil.Net

namespace Kernel

variable {own own' : Fd → Option Handle} {live live' : Fd → Prop} {k : Kernel} {fd : Fd}
  {st : Socket} {t t' : Tcb} {loc rem : SocketAddr} {s : TcpSegment}

/-! ## 1. Sockets and connections -/

theorem scan_safe (inUse : UInt16 → Bool) (start : UInt16) : ∀ (fuel : Nat) (a : PortAllocator),
    Safe (fun r => ∀ p, r.2 = some p → inUse p = false) (PortAllocator.scan inUse start fuel a)
  | 0, _ => trivial
  | fuel + 1, a => by
    unfold PortAllocator.scan
    dsimp only
    split
    · rename_i hfree
      intro p hp
      cases hp
      simpa using hfree
    · split
      · intro p hp
        cases hp
      · exact scan_safe inUse start fuel _

/-- A port the allocator hands out is bound by nobody. -/
theorem allocatePort_safe (t : SocketTable) (domain : Domain) (ty : SockType) :
    Safe (fun r => (∃ ports, r.1 = { t with ports := ports }) ∧ ∀ p, r.2 = some p →
      ∀ key fds, t.bindings.get? key = some fds → key.domain = domain → key.ty = ty →
        key.localPort ≠ p) (t.allocatePort domain ty) := by
  refine Safe.bind (scan_safe _ _ _ _) fun r hr => ?_
  obtain ⟨ports, o⟩ := r
  refine ⟨⟨ports, rfl⟩, fun p hp key fds hkey h1 h2 h3 => ?_⟩
  have hfree := hr p hp
  rw [List.any_eq_false] at hfree
  exact hfree key (IndexMap.mem_keys.mpr ⟨fds, hkey⟩) (by simp [h1, h2, h3])

/-- A socket as `bind` leaves it. -/
structure Bound (st : Socket) (ty : SockType) : Prop where
  ty : st.ty = ty
  bound : st.bound ≠ none
  tcb : st.tcb = none
  listen : st.listen = none
  fdClosed : st.fdClosed = false

theorem bindAt_tidy (h : k.Tidy own live) {key : BindKey} (hkey : key.domain = domainOf key.localAddr) :
    (k.bindAt key).1.Tidy own live ∧ ∀ fd, (k.bindAt key).2 = .ok fd →
      own fd = none ∧ ∃ st, (k.bindAt key).1.lookup fd = some st ∧ Bound st key.ty := by
  unfold bindAt
  dsimp only
  split
  · refine ⟨h, fun fd hfd => ?_⟩
    cases hfd
  · obtain ⟨-, hfree⟩ := SocketTable.Tidy.next h
    have h1 := SocketTable.Tidy.opened h key.domain key.ty
    have hget : (k.sockets.insert (Socket.new key.domain key.ty)).1.get k.sockets.nextId
        = some (Socket.new key.domain key.ty) := by
      rw [SocketTable.get_insert, if_pos rfl]
    refine ⟨h1.bound hget rfl key (fun _ _ => rfl) ⟨fun key' hk => ?_, fun ht => absurd rfl ht,
      fun hl => absurd rfl hl, fun _ ht => (by cases ht), fun handle hh => ?_⟩, fun fd hfd => ?_⟩
    · cases hk
      exact ⟨rfl, rfl, hkey⟩
    · rw [hfree] at hh
      cases hh
    · cases hfd
      refine ⟨hfree, { Socket.new key.domain key.ty with bound := some key }, ?_,
        ⟨rfl, Option.some_ne_none key, rfl, rfl, rfl⟩⟩
      rw [lookup_modifySocket, if_pos rfl]
      exact congrArg (Option.map _) hget

theorem bind_safe (h : k.Tidy own live) (addr : SocketAddr) (ty : SockType) :
    Safe (fun r => r.1.Tidy own live ∧ ∀ fd, r.2 = .ok fd →
      own fd = none ∧ ∃ st, r.1.lookup fd = some st ∧ Bound st ty) (k.bind addr ty) := by
  unfold bind
  dsimp only
  split
  · refine ⟨h, fun fd hfd => ?_⟩
    cases hfd
  · split
    · refine Safe.bind (allocatePort_safe k.sockets _ ty) fun r hr => ?_
      obtain ⟨sockets, port⟩ := r
      obtain ⟨⟨ports, hports⟩, -⟩ := hr
      have h1 : ({ k with sockets := sockets } : Kernel).Tidy own live := by
        rw [Tidy, show sockets = _ from hports]
        exact SocketTable.Tidy.ports h ports
      cases port with
      | none =>
        refine ⟨h1, fun fd hfd => ?_⟩
        cases hfd
      | some port => exact bindAt_tidy h1 rfl
    · exact bindAt_tidy h rfl

/-- A listener of its own: its queue is empty. -/
theorem listen_safe (h : k.Tidy own live) (hst : k.lookup fd = some st) (hb : Bound st .stream)
    (hown : ∀ g, g ≠ fd → own' g = own g) (hlistener : own' fd = some .listener) (backlog : Nat) :
    Safe (fun r => r.2 = .ok () ∧ r.1.Tidy own' live) (k.listen fd backlog) := by
  have hsome : st.bound.isNone = false := by
    cases hbound : st.bound with
    | none => exact absurd hbound hb.bound
    | some key => rfl
  have hfit := h.socket fd st hst
  unfold listen
  rw [hst]
  dsimp only
  rw [if_neg (fun hne => hne hb.ty), hsome, if_neg Bool.false_ne_true]
  have hready : (k.sockets.modify fd fun st => { st with listen := some ⟨backlog, []⟩ }).ready fd
      = [] := by
    rw [SocketTable.ready, SocketTable.get_modify, if_pos rfl,
      show k.sockets.get fd = some st from hst]
    rfl
  refine ⟨rfl, SocketTable.Tidy.modify h hst hown rfl rfl ⟨hfit.key, fun ht => absurd hb.tcb ht,
    fun _ => ⟨hb.ty, hb.bound, hb.fdClosed⟩, hfit.received, fun handle hh => ?_⟩ (fun hq => ?_) ?_ ?_⟩
  · rw [hlistener] at hh
    cases hh
    exact ⟨hb.fdClosed, Option.some_ne_none _⟩
  · refine absurd hq (h.not_queued hst fun hw => ?_)
    obtain ⟨-, t, ht, -⟩ := hw
    rw [hb.tcb] at ht
    cases ht
  · rw [hready]
    exact List.nodup_nil
  · rw [hready]
    intro c hc
    cases hc

theorem isIpv4_localhostLike (ip : IpAddr) : ip.localhostLike.isIpv4 = ip.isIpv4 := by
  cases ip <;> rfl

/-- The address a socket talks from is of the family of the address it talks to. -/
theorem domainOf_autoBindAddress {dst a : IpAddr} (h : k.autoBindAddress dst = .ok a) :
    domainOf a = domainOf dst := by
  unfold autoBindAddress at h
  split at h
  · cases h
    rw [domainOf, isIpv4_localhostLike]
    rfl
  · split at h
    · rename_i a' ha
      cases h
      have := List.find?_some ha
      rw [domainOf, domainOf, eq_of_beq this]
    · cases h

/-- The handles without one. -/
def dropHandle (own : Fd → Option Handle) (fd : Fd) : Fd → Option Handle :=
  fun g => if g = fd then none else own g

theorem dropHandle_of_ne {g : Fd} (hg : g ≠ fd) : dropHandle own fd g = own g := if_neg hg

theorem dropHandle_self : dropHandle own fd fd = none := if_pos rfl

/-- A socket is bound to a port of its own: nothing is connected from there. -/
theorem autoBind_safe (h : k.Tidy own live) {dst : IpAddr} (hst : k.lookup fd = some st)
    (hnone : st.bound = none) (hty : st.ty = .stream) (hdomain : st.domain = domainOf dst) :
    Safe (fun r => (∀ e, r.2 = .error e → r.1.Tidy own live) ∧ ∀ key, r.2 = .ok key →
      r.1.Tidy (dropHandle own fd) live ∧ r.1.lookup fd = some { st with bound := some key }
      ∧ (key.domain = st.domain ∧ key.ty = st.ty ∧ key.domain = domainOf key.localAddr)
      ∧ ∀ rem, r.1.sockets.findConnection key.endpoint rem = none)
      (k.autoBind fd st.domain .stream dst) := by
  have hfit := h.socket fd st hst
  unfold autoBind
  cases haddr : k.autoBindAddress dst with
  | error e => exact ⟨fun _ _ => h, fun key hk => (by cases hk)⟩
  | ok ip =>
    refine Safe.bind (allocatePort_safe k.sockets st.domain .stream) fun r hr => ?_
    obtain ⟨sockets, port⟩ := r
    obtain ⟨⟨ports, hports⟩, hfree⟩ := hr
    subst hports
    have h1 := SocketTable.Tidy.ports h ports
    cases port with
    | none => exact ⟨fun _ _ => h1, fun key hk => (by cases hk)⟩
    | some port =>
      refine Safe.bind (p := fun _ => True) (Safe.expect (a := st) _ hst trivial) fun _ _ => ?_
      refine ⟨fun e he => (by cases he), fun key hk => ?_⟩
      cases hk
      have hkey : st.domain = st.domain ∧ SockType.stream = st.ty ∧ st.domain = domainOf ip :=
        ⟨rfl, hty.symm, hdomain.trans (domainOf_autoBindAddress haddr).symm⟩
      refine ⟨h1.bound hst hnone _ (fun g hg => dropHandle_of_ne hg) ⟨fun key hk => ?_, fun ht => ?_,
        fun hl => ?_, hfit.received, fun handle hh => ?_⟩, ?_, hkey, fun rem => ?_⟩
      · cases hk
        exact hkey
      · exact absurd hnone (hfit.tcb ht).2.1
      · exact absurd hnone (hfit.listen hl).2.1
      · rw [dropHandle_self] at hh
        cases hh
      · rw [lookup_modifySocket, if_pos rfl]
        exact congrArg (Option.map _) hst
      · -- whoever is connected from there would be bound to the port
        show k.sockets.connections.get? _ = none
        by_contra hsome
        obtain ⟨g, hg⟩ := Option.ne_none_iff_exists'.mp hsome
        obtain ⟨gst, t, gkey, hgst, ht, -, hgb, hend⟩ := h.of_connection hg
        have hgfit := h.socket g gst hgst
        have htcb : gst.tcb ≠ none := by
          rw [ht]
          exact Option.some_ne_none t
        obtain ⟨hk1, hk2, hk3⟩ := hgfit.key gkey hgb
        have hmem := (h.listed gkey g).mpr ⟨gst, hgst, hgb⟩
        obtain ⟨fds, hfds⟩ : ∃ fds, k.sockets.bindings.get? gkey = some fds := by
          cases hget : k.sockets.bindings.get? gkey with
          | some fds => exact ⟨fds, rfl⟩
          | none =>
            rw [SocketTable.findByBind, hget] at hmem
            cases hmem
        have haddr' : gkey.localAddr = ip := congrArg SocketAddr.ip hend
        refine hfree port rfl gkey fds hfds ?_ ?_ (congrArg SocketAddr.port hend)
        · rw [hk3, haddr']
          exact hkey.2.2.symm
        · exact hk2.trans (hgfit.tcb htcb).1

theorem lookup_tcpIsn (k : Kernel) (isn : UInt32) (fd : Fd) :
    ({ k with tcpIsn := isn } : Kernel).lookup fd = k.lookup fd := rfl

/-- The control block, the index entry and the SYN of a socket that is bound. -/
theorem startConnect_safe {peer : SocketAddr} {key : BindKey} (h : k.Tidy (dropHandle own fd) live)
    (hst : k.lookup fd = some st) (hb : st.bound = some key) (htcb : st.tcb = none)
    (hlisten : st.listen = none) (hty : st.ty = .stream) (hdomain : st.domain = domainOf peer.ip)
    (hopen : st.fdClosed = false) (hown : own fd = some (.connecting peer))
    (hfresh : k.sockets.findConnection key.endpoint peer = none) :
    Safe (Kernel.Tidy own live) (k.startConnect fd peer) := by
  have hend : k.localEndpoint fd = .ok key.endpoint := by
    refine bind_eq_ok.mpr ⟨st, expect_eq_ok.mpr hst, bind_eq_ok.mpr ⟨key, expect_eq_ok.mpr hb, ?_⟩⟩
    simp [htcb, pure, Except.pure, BindKey.endpoint]
  refine Safe.bind (Safe.returns hend) fun src hsrc => ?_
  subst hsrc
  refine Safe.bind (p := fun _ => True)
    (Safe.expect (a := st) _ ((k.lookup_tcpIsn _ fd).trans hst) trivial) fun _ _ => ?_
  unfold SocketTable.insertConnection
  split
  · trivial
  · have hfit := h.socket fd st hst
    refine SocketTable.Tidy.connected h hst htcb hfresh (fun g hg => (dropHandle_of_ne hg).symm) rfl
      hlisten ?_ ⟨hfit.key, fun _ => ⟨hty, ?_, hlisten⟩, hfit.listen, fun t ht hs => ?_, fun hd hh => ?_⟩
    · exact Socket.tuple?_eq_some.mpr ⟨key, _, hb, rfl, rfl⟩
    · rw [hb]
      exact Option.some_ne_none key
    · cases ht
      cases hs
    · rw [hown] at hh
      cases hh
      refine ⟨hopen, hty, hdomain, hlisten, fun hnone => absurd hnone (Option.some_ne_none _),
        fun t ht hs => ?_⟩
      cases ht
      cases hs

/-- **A poll of a connection in progress**: on the first one the socket is bound to a fresh port, so
that its tuple is its own. -/
theorem tcpPollConnect_safe (h : k.Tidy own live) {peer : SocketAddr}
    (hst : k.lookup fd = some st) (hown : own fd = some (.connecting peer)) :
    Safe (fun r => r.1.Tidy own live ∧ ∀ q, r.2 = .ready (.ok q) →
      ∃ st, r.1.lookup fd = some st ∧ st.Waiting) (k.tcpPollConnect fd peer) := by
  obtain ⟨hopen, hty, hdomain, hlisten, hunbound, -⟩ := (h.socket fd st hst).serves _ hown
  refine Safe.bind (Safe.expect (p := fun st' => st' = st) _ hst rfl) fun st' hst' => ?_
  subst hst'
  cases htcb : st'.tcb with
  | some t =>
    refine ⟨h, fun q hq => ⟨st', hst, hopen, t, htcb, ?_⟩⟩
    change connectStatus t = .ready (.ok q) at hq
    unfold connectStatus at hq
    split at hq
    · rename_i hs
      rw [hs]
      rfl
    · cases hq
    · cases hq
    · split at hq <;> cases hq
  | none =>
    have hnone := hunbound htcb
    have hens : k.ensureBound fd st' .stream peer.ip = k.autoBind fd st'.domain .stream peer.ip := by
      rw [ensureBound, hnone]
    refine Safe.bind (hens ▸ autoBind_safe h hst hnone hty hdomain) fun r hr => ?_
    obtain ⟨k1, bound⟩ := r
    cases bound with
    | error e => exact ⟨hr.1 e rfl, fun q hq => (by cases hq)⟩
    | ok key =>
      obtain ⟨h1, hst1, -, hfresh⟩ := hr.2 key rfl
      refine Safe.bind (startConnect_safe h1 hst1 rfl htcb hlisten hty hdomain hopen hown
        (hfresh peer)) fun k2 h2 => ⟨h2, fun q hq => (by cases hq)⟩

theorem Tidy.lookup_of_own (h : k.Tidy own live) {handle : Handle} (hown : own fd = some handle) :
    ∃ st, k.lookup fd = some st :=
  Option.ne_none_iff_exists'.mp (h.owned fd (by rw [hown]; exact Option.some_ne_none handle))

/-- A change of what no index speaks of: the peer of a datagram socket, an option, a queue of
datagrams. -/
theorem Tidy.side (h : k.Tidy own live) (hst : k.lookup fd = some st) {f : Socket → Socket}
    (h1 : (f st).domain = st.domain ∧ (f st).ty = st.ty) (h2 : (f st).bound = st.bound)
    (h3 : (f st).tcb = st.tcb) (h4 : (f st).listen = st.listen)
    (h5 : (f st).fdClosed = st.fdClosed) : (k.modifySocket fd f).Tidy own live := by
  have hfit := h.socket fd st hst
  refine SocketTable.Tidy.touch h hst (fun _ _ => rfl) h2 h4 ?_ ⟨?_, ?_, ?_, ?_, fun handle hh => ?_⟩
    fun hq => ?_
  · rw [Socket.tuple?, Socket.tuple?, h2, h3]
  · rw [h2, h1.1, h1.2]
    exact hfit.key
  · rw [h2, h3, h4, h1.2]
    exact hfit.tcb
  · rw [h2, h4, h5, h1.2]
    exact hfit.listen
  · rw [h3, h5]
    exact hfit.received
  · obtain ⟨hopen, hserves⟩ := hfit.serves handle hh
    refine ⟨h5.trans hopen, ?_⟩
    cases handle with
    | listener =>
      show (f st).listen ≠ none
      rw [h4]
      exact hserves
    | connecting peer =>
      obtain ⟨s1, s2, s3, s4, s5⟩ := hserves
      exact ⟨h1.2.trans s1, h1.1.trans s2, h4.trans s3, by rw [h2, h3]; exact s4,
        by rw [h3]; exact s5⟩
    | stream =>
      obtain ⟨t, ht, hs⟩ := hserves
      exact ⟨t, h3.trans ht, hs⟩
    | udp => exact ⟨h1.2.trans hserves.1, by rw [h2]; exact hserves.2⟩
  · obtain ⟨hn, st', hst', hopen, t, ht, hs⟩ := h.waiting fd hq
    cases hst.symm.trans hst'
    exact ⟨hn, h5.trans hopen, t, h3.trans ht, hs⟩

theorem pollConnect_safe (h : k.Tidy own live) {peer : SocketAddr} {handle : Handle}
    (hown : own fd = some handle) (hperm : handle = .udp ∨ handle = .connecting peer) :
    Safe (fun r => r.1.Tidy own live ∧ (handle = .connecting peer → ∀ q, r.2 = .ready (.ok q) →
      ∃ st, r.1.lookup fd = some st ∧ st.Waiting)) (k.pollConnect fd peer) := by
  obtain ⟨st, hst⟩ := h.lookup_of_own hown
  obtain ⟨-, hserves⟩ := (h.socket fd st hst).serves handle hown
  unfold pollConnect
  rw [hst]
  dsimp only
  split
  · refine ⟨h, fun _ q hq => ?_⟩
    cases hq
  · rcases hperm with rfl | rfl
    · rw [hserves.1]
      obtain ⟨key, hb⟩ := Option.ne_none_iff_exists'.mp hserves.2
      have hens : k.ensureBound fd st .dgram peer.ip = .ok (k, .ok key) := by
        rw [ensureBound, hb]
      refine Safe.bind (Safe.returns hens) fun r hr => ?_
      subst hr
      refine ⟨h.side hst ⟨rfl, rfl⟩ rfl rfl rfl rfl, fun hh => ?_⟩
      cases hh
    · rw [hserves.1]
      exact (tcpPollConnect_safe h hst hown).mono fun r hr => ⟨hr.1, fun _ => hr.2⟩

/-- **The head of the queue is taken**: it is a live connection, and waits nowhere else. -/
theorem pollAccept_safe (h : k.Tidy own fun _ => True) (hown : own fd = some .listener) :
    Safe (fun r => r.1.Tidy own (fun _ => True) ∧ ∀ child peer, r.2 = .ready (.ok (child, peer)) →
      own child = none ∧ ¬ r.1.sockets.Queued (fun _ => True) child
        ∧ ∃ st, r.1.lookup child = some st ∧ st.Waiting) (k.pollAccept fd) := by
  obtain ⟨st, hst⟩ := h.lookup_of_own hown
  have hfit := h.socket fd st hst
  obtain ⟨hopen, hserves⟩ := hfit.serves _ hown
  obtain ⟨l, hl⟩ := Option.ne_none_iff_exists'.mp hserves
  have htcb : st.tcb = none := by
    by_contra ht
    rw [(hfit.tcb ht).2.2] at hl
    cases hl
  have hready : k.sockets.ready fd = l.ready := by
    rw [SocketTable.ready, show k.sockets.get fd = some st from hst, Option.bind_some, hl]
  unfold pollAccept
  rw [hst]
  refine Safe.bind (Safe.expect (p := fun l' => l' = l) _ hl rfl) fun l' hl' => ?_
  subst hl'
  cases hq : l'.ready with
  | nil => exact ⟨h, fun child peer hr => (by cases hr)⟩
  | cons child rest =>
    have hmem : child ∈ k.sockets.ready fd := by
      rw [hready, hq]
      exact List.mem_cons_self
    obtain ⟨hnone, cst, hcst, hw⟩ := h.waiting child ⟨fd, trivial, hmem⟩
    have hne : child ≠ fd := by
      rintro rfl
      cases hst.symm.trans hcst
      obtain ⟨-, t, ht, -⟩ := hw
      rw [htcb] at ht
      cases ht
    have hnodup := h.queue fd
    rw [hready, hq, List.nodup_cons] at hnodup
    have hready' : (k.sockets.modify fd fun st =>
        { st with listen := some { l' with ready := rest } }).ready fd = rest := by
      rw [SocketTable.ready, SocketTable.get_modify, if_pos rfl,
        show k.sockets.get fd = some st from hst]
      rfl
    have h1 : (k.modifySocket fd fun st =>
        { st with listen := some { l' with ready := rest } }).Tidy own fun _ => True := by
      refine SocketTable.Tidy.modify h hst (fun _ _ => rfl) rfl rfl ⟨hfit.key,
        fun ht => absurd htcb ht, fun _ => hfit.listen hserves, hfit.received, fun handle hh => ?_⟩
        (fun hqd => ?_) ?_ ?_
      · rw [hown] at hh
        cases hh
        exact ⟨hopen, Option.some_ne_none _⟩
      · obtain ⟨hn, -⟩ := h.waiting fd hqd
        rw [hown] at hn
        cases hn
      · rw [hready']
        exact hnodup.2
      · rw [hready']
        intro c hc
        refine Or.inl ?_
        rw [hready, hq]
        exact List.mem_cons_of_mem child hc
    have hlook : (k.modifySocket fd fun st =>
        { st with listen := some { l' with ready := rest } }).lookup child = some cst := by
      rw [lookup_modifySocket, if_neg hne]
      exact hcst
    obtain ⟨-, t, ht, -⟩ := id hw
    refine Safe.bind (Safe.expect (p := fun c => c = cst) _ hlook rfl) fun c hc => ?_
    subst hc
    refine Safe.bind (Safe.expect (p := fun _ => True) _ ht trivial) fun t' _ => ?_
    refine ⟨h1, fun child' peer hr => ?_⟩
    cases hr
    refine ⟨hnone, fun hqd => ?_, c, hlook, hw⟩
    obtain ⟨g, -, hg⟩ := hqd
    by_cases hgf : g = fd
    · subst hgf
      rw [show (k.modifySocket g fun st =>
        { st with listen := some { l' with ready := rest } }).sockets.ready g = rest from hready'] at hg
      exact hnodup.1 hg
    · have hsame : (k.modifySocket fd fun st =>
          { st with listen := some { l' with ready := rest } }).sockets.ready g = k.sockets.ready g :=
        SocketTable.ready_of_get (by
          show (k.sockets.modify fd _).get g = _
          rw [SocketTable.get_modify, if_neg hgf])
      rw [hsame] at hg
      exact hgf (h.once child fd g trivial trivial hmem hg)

/-! ## 2. Data -/

theorem udpSendTo_safe (h : k.Tidy own live) (hst : k.lookup fd = some st) (hb : st.bound ≠ none)
    (buf : List UInt8) (dst : SocketAddr) :
    Safe (fun r => r.1.Tidy own live) (k.udpSendTo fd buf dst) := by
  refine Safe.bind (Safe.expect (p := fun st' => st' = st) _ hst rfl) fun st' hst' => ?_
  subst hst'
  split
  · exact h
  · split
    · exact h
    · obtain ⟨key, hb⟩ := Option.ne_none_iff_exists'.mp hb
      have hens : k.ensureBound fd st' .dgram dst.ip = .ok (k, .ok key) := by
        rw [ensureBound, hb]
      refine Safe.bind (Safe.returns hens) fun r hr => ?_
      subst hr
      exact h

theorem tcpPollSend_tidy (h : k.Tidy own live) (fd : Fd) (buf : List UInt8) :
    (k.tcpPollSend fd buf).1.Tidy own live := by
  unfold tcpPollSend
  split
  · exact h
  · rename_i st hst
    split
    · exact h
    · rename_i t ht
      exact h.setTcb hst ht (t.pollSend_continues _ buf)

theorem tcpPollShutdownWrite_tidy (h : k.Tidy own live) (fd : Fd) :
    (k.tcpPollShutdownWrite fd).1.Tidy own live := by
  unfold tcpPollShutdownWrite
  split
  · exact h
  · rename_i st hst
    split
    · exact h
    · rename_i t ht
      exact h.setTcb hst ht t.pollShutdownWrite_continues

theorem tcpPollRecvVectored_safe (h : k.Tidy own live) (fd : Fd) (lens : List Nat) :
    Safe (fun r => r.1.Tidy own live) (k.tcpPollRecvVectored fd lens) := by
  unfold tcpPollRecvVectored
  split
  · exact h
  · rename_i st hst
    split
    · exact h
    · rename_i t ht
      dsimp only
      split
      · exact h
      · obtain ⟨key, -, hend⟩ := h.endpoint hst ht
        refine Safe.bind (Safe.returns hend) fun loc _ => ?_
        have h1 := h.setTcb hst ht (t.pollRecvVectored_continues k.cfg.recvBufCap lens)
        split <;> exact h1

theorem udpRecvFrom_tidy (h : k.Tidy own live) (hst : k.lookup fd = some st) (len : Nat) :
    (k.udpRecvFrom fd st len).1.Tidy own live := by
  unfold udpRecvFrom
  split
  · exact h
  · exact h.side hst ⟨rfl, rfl⟩ rfl rfl rfl rfl

/-- What a stream is, and what a datagram socket is. -/
theorem Tidy.ty_of_own (h : k.Tidy own live) {handle : Handle} (hown : own fd = some handle) :
    ∃ st, k.lookup fd = some st ∧ (handle = .stream → st.ty = .stream)
      ∧ (handle = .udp → st.ty = .dgram ∧ st.bound ≠ none) := by
  obtain ⟨st, hst⟩ := h.lookup_of_own hown
  have hfit := h.socket fd st hst
  obtain ⟨-, hserves⟩ := hfit.serves handle hown
  refine ⟨st, hst, fun hh => ?_, fun hh => ?_⟩
  · subst hh
    obtain ⟨t, ht, -⟩ := hserves
    exact (hfit.tcb (by rw [ht]; exact Option.some_ne_none t)).1
  · subst hh
    exact hserves

theorem pollSend_safe (h : k.Tidy own live) {handle : Handle} (hown : own fd = some handle)
    (hperm : handle = .stream ∨ handle = .udp) (buf : List UInt8) :
    Safe (fun r => r.1.Tidy own live) (k.pollSend fd buf) := by
  obtain ⟨st, hst, hstream, hudp⟩ := h.ty_of_own hown
  unfold pollSend
  rw [hst]
  dsimp only
  rcases hperm with hh | hh
  · rw [hstream hh]
    exact tcpPollSend_tidy h fd buf
  · rw [(hudp hh).1]
    cases st.peer with
    | none => exact h
    | some peer => exact udpSendTo_safe h hst (hudp hh).2 buf peer

theorem pollSendTo_safe (h : k.Tidy own live) (hown : own fd = some .udp) (buf : List UInt8)
    (dst : SocketAddr) : Safe (fun r => r.1.Tidy own live) (k.pollSendTo fd buf dst) := by
  obtain ⟨st, hst, -, hudp⟩ := h.ty_of_own hown
  unfold pollSendTo
  rw [hst]
  dsimp only
  rw [if_neg fun hne => hne (hudp rfl).1]
  split
  · exact h
  · exact udpSendTo_safe h hst (hudp rfl).2 buf dst

theorem pollRecv_safe (h : k.Tidy own live) {handle : Handle} (hown : own fd = some handle)
    (hperm : handle = .stream ∨ handle = .udp) (len : Nat) :
    Safe (fun r => r.1.Tidy own live) (k.pollRecv fd len) := by
  obtain ⟨st, hst, hstream, hudp⟩ := h.ty_of_own hown
  unfold pollRecv
  rw [hst]
  dsimp only
  rcases hperm with hh | hh
  · rw [hstream hh]
    exact tcpPollRecvVectored_safe h fd [len]
  · rw [(hudp hh).1]
    have h1 := udpRecvFrom_tidy h hst len
    dsimp only
    split
    · rename_i heq
      rw [heq] at h1
      exact h1
    · rename_i heq
      rw [heq] at h1
      exact h1

theorem pollRecvFrom_safe (h : k.Tidy own live) (hown : own fd = some .udp) (len : Nat) :
    Safe (fun r => r.1.Tidy own live) (k.pollRecvFrom fd len) := by
  obtain ⟨st, hst, -, hudp⟩ := h.ty_of_own hown
  have h1 := udpRecvFrom_tidy h hst len
  unfold pollRecvFrom
  rw [hst]
  dsimp only
  rw [if_neg fun hne => hne (hudp rfl).1]
  split
  · rename_i heq
    rw [heq] at h1
    exact h1
  · rename_i heq
    rw [heq] at h1
    exact h1

theorem tryRecvVectored_safe (h : k.Tidy own live) (fd : Fd) (lens : List Nat) :
    Safe (fun r => r.1.Tidy own live) (k.tryRecvVectored fd lens) := by
  unfold tryRecvVectored
  split
  · exact h
  · split
    · exact h
    · refine Safe.bind (tcpPollRecvVectored_safe h fd lens) fun r hr => ?_
      obtain ⟨k', r⟩ := r
      cases r <;> exact hr

theorem pollShutdownWrite_safe (h : k.Tidy own live) (hown : own fd = some .stream) :
    Safe (fun r => r.1.Tidy own live) (k.pollShutdownWrite fd) := by
  obtain ⟨st, hst, hstream, -⟩ := h.ty_of_own hown
  unfold pollShutdownWrite
  rw [hst]
  dsimp only
  rw [hstream rfl]
  exact tcpPollShutdownWrite_tidy h fd

theorem pollPeek_safe (h : k.Tidy own live) (hown : own fd = some .stream) (len : Nat) :
    Safe (fun _ => True) (k.pollPeek fd len) := by
  obtain ⟨st, hst, hstream, -⟩ := h.ty_of_own hown
  unfold pollPeek
  rw [hst]
  dsimp only
  rw [hstream rfl]
  trivial

theorem pollPeekFrom_safe (h : k.Tidy own live) (hown : own fd = some .udp) (len : Nat) :
    Safe (fun _ => True) (k.pollPeekFrom fd len) := by
  obtain ⟨st, hst, -, hudp⟩ := h.ty_of_own hown
  unfold pollPeekFrom
  rw [hst]
  dsimp only
  rw [if_neg fun hne => hne (hudp rfl).1]
  split <;> trivial

theorem setOption_tidy (h : k.Tidy own live) (fd : Fd) (opt : SocketOption) :
    (k.setOption fd opt).1.Tidy own live := by
  unfold setOption
  split
  · exact h
  · rename_i st hst
    cases opt <;> exact h.side hst ⟨rfl, rfl⟩ rfl rfl rfl rfl

/-! ## 3. Closing -/

/-- A child that nobody holds and no other listener queues is reset and removed. -/
theorem resetChild_safe (h : k.Tidy own live) {child : Fd} (hnone : own child = none)
    (hq : ¬ k.sockets.Queued live child) :
    Safe (fun k' => k'.Tidy own live ∧ ∀ c, k'.sockets.Queued live c → k.sockets.Queued live c)
      (k.resetChild child) := by
  have hgone : (k.removeSocket child).Tidy own live
      ∧ ∀ c, (k.removeSocket child).sockets.Queued live c → k.sockets.Queued live c := by
    refine ⟨SocketTable.Tidy.removed h hq (fun _ _ => rfl) hnone fun g hg => Or.inr hg, ?_⟩
    rintro c ⟨g, hg, hc⟩
    refine ⟨g, hg, ?_⟩
    obtain ⟨st, l, hst, hl, hcl⟩ := SocketTable.mem_ready.mp hc
    have hst' : (k.removeSocket child).lookup g = some st := hst
    rw [lookup_removeSocket] at hst'
    split at hst'
    · cases hst'
    · exact SocketTable.mem_ready.mpr ⟨st, l, hst', hl, hcl⟩
  unfold resetChild
  split
  · exact ⟨h, fun _ hc => hc⟩
  · rename_i st hst
    split
    · exact hgone
    · rename_i t ht
      obtain ⟨key, -, hend⟩ := h.endpoint hst ht
      exact Safe.bind (Safe.returns hend) fun loc _ => hgone

/-- The sockets a closing listener finds in their handshake. -/
theorem received_of_mem_handshakingOn {ready : List Fd} {c : Fd}
    (hc : c ∈ k.handshakingOn fd ready loc) :
    ∃ st t, k.lookup c = some st ∧ st.tcb = some t ∧ t.state = .synReceived := by
  obtain ⟨⟨c', st⟩, hmem, rfl⟩ := List.mem_map.mp hc
  obtain ⟨hmem, hp⟩ := List.mem_filter.mp hmem
  have hst := IndexMap.mem_entries.mp hmem
  obtain ⟨-, hp⟩ := Bool.and_eq_true_iff.mp hp
  split at hp
  · rename_i t bind ht hb
    simp only [Bool.and_eq_true, beq_iff_eq] at hp
    exact ⟨st, t, hst, ht, hp.1.1⟩
  · cases hp

/-- **Closing a listener.**  Its queue no longer counts; then its children are in none, and can go
one by one, the listener last. -/
theorem closeListener_safe (h : k.Tidy own fun _ => True) {l : ListenState}
    (hst : k.lookup fd = some st) (hl : st.listen = some l) (loc : SocketAddr) :
    Safe (fun k' => (k'.removeSocket fd).Tidy (dropHandle own fd) fun _ => True)
      ((l.ready ++ k.handshakingOn fd l.ready loc).foldlM resetChild k) := by
  have hready : k.sockets.ready fd = l.ready := by
    rw [SocketTable.ready, show k.sockets.get fd = some st from hst, Option.bind_some, hl]
  have htcb : st.tcb = none := by
    by_contra ht
    rw [((h.socket fd st hst).tcb ht).2.2] at hl
    cases hl
  have hfdq : ¬ k.sockets.Queued (fun g => g ≠ fd) fd := by
    rintro ⟨g, -, hg⟩
    obtain ⟨-, st', hst', -, t, ht, -⟩ := h.waiting fd ⟨g, trivial, hg⟩
    cases hst.symm.trans hst'
    rw [htcb] at ht
    cases ht
  have h1 : k.Tidy own fun g => g ≠ fd := h.anti fun _ _ => trivial
  -- every child is nobody's, and in no other queue
  have hchild : ∀ c ∈ l.ready ++ k.handshakingOn fd l.ready loc,
      own c = none ∧ ¬ k.sockets.Queued (fun g => g ≠ fd) c := by
    intro c hc
    rcases List.mem_append.mp hc with hc | hc
    · rw [← hready] at hc
      refine ⟨(h.waiting c ⟨fd, trivial, hc⟩).1, ?_⟩
      rintro ⟨g, hgf, hg⟩
      exact hgf (h.once c fd g trivial trivial hc hg)
    · obtain ⟨cst, t, hcst, ht, hs⟩ := received_of_mem_handshakingOn hc
      exact SocketTable.Tidy.of_received h1 hcst ht hs
  refine (Safe.foldlM (q := fun k' : Kernel => k'.Tidy own (fun g => g ≠ fd)
    ∧ ∀ c, k'.sockets.Queued (fun g => g ≠ fd) c → k.sockets.Queued (fun g => g ≠ fd) c) ?_
    ⟨h1, fun _ hc => hc⟩).mono fun k' hk' => ?_
  · intro c hc k' hk'
    obtain ⟨hnone, hq⟩ := hchild c hc
    refine (resetChild_safe hk'.1 hnone fun hq' => hq (hk'.2 c hq')).mono fun k2 hk2 => ?_
    exact ⟨hk2.1, fun c hc => hk'.2 c (hk2.2 c hc)⟩
  · refine SocketTable.Tidy.removed hk'.1 (fun hq => hfdq (hk'.2 fd hq))
      (fun g hg => dropHandle_of_ne hg) dropHandle_self fun g _ => ?_
    by_cases hg : g = fd
    · exact Or.inl hg
    · exact Or.inr hg

/-- **The one who holds a descriptor closes it.** -/
theorem close_safe (h : k.Tidy own fun _ => True) {handle : Handle} (hown : own fd = some handle) :
    Safe (Kernel.Tidy (dropHandle own fd) fun _ => True) (k.close fd) := by
  obtain ⟨st, hst⟩ := h.lookup_of_own hown
  have hfit := h.socket fd st hst
  have hnq : ¬ k.sockets.Queued (fun _ => True) fd := by
    intro hq
    have := (h.waiting fd hq).1
    rw [hown] at this
    cases this
  have hgone : (k.removeSocket fd).Tidy (dropHandle own fd) fun _ => True :=
    SocketTable.Tidy.removed h hnq (fun g hg => dropHandle_of_ne hg) dropHandle_self
      fun g hg => Or.inr hg
  refine Safe.bind (p := fun r => (r.2 = true → (r.1.removeSocket fd).Tidy (dropHandle own fd)
      fun _ => True) ∧ (r.2 = false → r.1.Tidy (dropHandle own fd) fun _ => True)) ?_ fun r hr => ?_
  · unfold onClose
    rw [hst]
    dsimp only
    split
    · rename_i l hty htcb hl
      obtain ⟨key, hb⟩ := Option.ne_none_iff_exists'.mp
        (hfit.listen (by rw [hl]; exact Option.some_ne_none l)).2.1
      have hend : boundEndpoint st = .ok key.endpoint := by
        rw [boundEndpoint, hb]
        rfl
      refine Safe.bind (Safe.returns hend) fun loc _ => ?_
      refine Safe.bind (closeListener_safe h hst hl loc) fun k' hk' => ⟨fun _ => hk', fun hf => ?_⟩
      cases hf
    · rename_i t hty ht
      split
      · rename_i hactive
        split
        · obtain ⟨key, -, hend⟩ := h.endpoint hst ht
          refine Safe.bind (Safe.returns hend) fun loc _ => ⟨fun _ => hgone, fun hf => ?_⟩
          cases hf
        · -- the descriptor is gone, the connection goes on
          refine ⟨fun hf => (by cases hf), fun _ => ?_⟩
          have hc : t.Continues (if t.wrClosed then t else t.shutWrite) := by
            split
            · exact .refl t
            · exact t.shutWrite_continues
          have hnone := (hfit.tcb (by rw [ht]; exact Option.some_ne_none t))
          refine SocketTable.Tidy.touch h hst (fun g hg => dropHandle_of_ne hg) rfl rfl ?_
            ⟨hfit.key, fun _ => hnone, fun hl => absurd hnone.2.2 hl, fun t' ht' hs => ?_,
              fun hd hh => ?_⟩ fun hq => absurd hq hnq
          · simp [Socket.tuple?, ht, hc.peer]
          · cases ht'
            have hs := hc.received hs
            simp [closesActively, hs, TcpState.handshake] at hactive
          · rw [dropHandle_self] at hh
            cases hh
      · exact ⟨fun _ => hgone, fun hf => (by cases hf)⟩
    · exact ⟨fun _ => hgone, fun hf => (by cases hf)⟩
  · obtain ⟨k', reap⟩ := r
    cases reap with
    | true => exact hr.1 rfl
    | false => exact hr.2 rfl

end Kernel

/-! ## 4. Hosts -/

namespace Host

/-- The invariant of a host: its tables are in order for the handles its application holds. -/
def Tidy (h : Host) : Prop := h.kernel.Tidy h.handles.get? fun _ => True

variable {h h' : Host}

theorem new_sockets (cfg : KernelConfig) (addrs : List IpAddr) :
    (Host.new cfg addrs).kernel.sockets = SocketTable.new := by
  have hsockets : ∀ k : Kernel, (addrs.foldl Kernel.addAddress k).sockets = k.sockets := by
    induction addrs with
    | nil => exact fun _ => rfl
    | cons a addrs ih =>
      intro k
      rw [List.foldl_cons, ih, Kernel.addAddress]
      split <;> rfl
  exact hsockets (Kernel.withConfig cfg)

theorem new_tidy (cfg : KernelConfig) (addrs : List IpAddr) : (Host.new cfg addrs).Tidy := by
  rw [Tidy, Kernel.Tidy, new_sockets]
  refine ⟨?_, ?_, ?_, ?_, ?_, ?_, ?_, ?_, ?_, ?_⟩
  · intro fd st hst
    cases hst
  · intro fd hfd
    exact absurd rfl hfd
  · intro fd st hst
    cases hst
  · intro key fd
    constructor
    · intro hfd
      cases hfd
    · rintro ⟨st, hst, -⟩
      cases hst
  · exact fun _ => List.nodup_nil
  · intro key hk
    cases hk
  · intro p fd
    constructor
    · intro hp
      cases hp
    · rintro ⟨st, hst, -⟩
      cases hst
  · exact fun _ => List.nodup_nil
  · rintro c ⟨g, -, hc⟩
    cases hc
  · intro c g g' _ _ hc
    cases hc

theorem handles_insert {fd : Fd} {handle : Handle} {g : Fd} (hg : g ≠ fd) :
    (h.handles.insert fd handle).get? g = h.handles.get? g := by
  rw [IndexMap.get?_insert, if_neg hg]

theorem handles_insert_self {fd : Fd} {handle : Handle} :
    (h.handles.insert fd handle).get? fd = some handle := by
  rw [IndexMap.get?_insert, if_pos rfl]

theorem listen_safe (hh : h.Tidy) (addr : SocketAddr) : Safe (fun r => r.1.Tidy) (h.listen addr) := by
  refine Safe.bind (Kernel.bind_safe hh addr .stream) fun r hr => ?_
  obtain ⟨k, r⟩ := r
  cases r with
  | error e => exact hr.1
  | ok fd =>
    obtain ⟨hnone, st, hst, hb⟩ := hr.2 fd rfl
    refine Safe.bind (Kernel.listen_safe hr.1 hst hb (fun g hg => handles_insert hg)
      handles_insert_self k.cfg.defaultBacklog) fun r' hr' => ?_
    obtain ⟨k', r'⟩ := r'
    obtain ⟨hr1, hr2⟩ := hr'
    cases hr1
    exact hr2

theorem bindUdp_safe (hh : h.Tidy) (addr : SocketAddr) :
    Safe (fun r => r.1.Tidy) (h.bindUdp addr) := by
  refine Safe.bind (Kernel.bind_safe hh addr .dgram) fun r hr => ?_
  obtain ⟨k, r⟩ := r
  cases r with
  | error e => exact hr.1
  | ok fd =>
    obtain ⟨hnone, st, hst, hb⟩ := hr.2 fd rfl
    have hfit := hr.1.socket fd st hst
    refine SocketTable.Tidy.hand hr.1 hst (fun g hg => handles_insert hg) ⟨hfit.key, hfit.tcb,
      hfit.listen, hfit.received, fun handle hd => ?_⟩ fun hq => ?_
    · rw [handles_insert_self] at hd
      cases hd
      exact ⟨hb.fdClosed, hb.ty, hb.bound⟩
    · obtain ⟨-, st', hst', -, t, ht, -⟩ := hr.1.waiting fd hq
      cases hst.symm.trans hst'
      rw [hb.tcb] at ht
      cases ht

theorem connect_tidy (hh : h.Tidy) (peer : SocketAddr) : (h.connect peer).1.Tidy := by
  have h1 := SocketTable.Tidy.opened hh (domainOf peer.ip) .stream
  have hget : (h.kernel.sockets.insert (Socket.new (domainOf peer.ip) .stream)).1.get
      h.kernel.sockets.nextId = some (Socket.new (domainOf peer.ip) .stream) := by
    rw [SocketTable.get_insert, if_pos rfl]
  have hfit := h1.socket _ _ hget
  refine SocketTable.Tidy.hand h1 hget (fun g hg => handles_insert hg) ⟨hfit.key, hfit.tcb,
    hfit.listen, hfit.received, fun handle hd => ?_⟩ fun hq => ?_
  · rw [show (h.connect peer).1.handles.get? h.kernel.sockets.nextId = some (.connecting peer) from
      handles_insert_self] at hd
    cases hd
    exact ⟨rfl, rfl, rfl, rfl, fun _ => rfl, fun t ht => (by cases ht)⟩
  · obtain ⟨-, st', hst', -, t, ht, -⟩ := h1.waiting _ hq
    cases hget.symm.trans hst'
    cases ht

/-- A connection past its handshake that waits in no queue can be handed out. -/
theorem tidy_of_stream {k : Kernel} {fd : Fd} {st : Socket} (hk : k.Tidy h.handles.get? fun _ => True)
    (hst : k.lookup fd = some st) (hw : st.Waiting)
    (hq : ¬ k.sockets.Queued (fun _ => True) fd) : Host.Tidy ⟨k, h.handles.insert fd .stream⟩ := by
  have hfit := hk.socket fd st hst
  refine SocketTable.Tidy.hand hk hst (fun g hg => handles_insert hg) ⟨hfit.key, hfit.tcb,
    hfit.listen, hfit.received, fun handle hd => ?_⟩ fun hq' => absurd hq' hq
  rw [handles_insert_self] at hd
  cases hd
  exact ⟨hw.1, hw.2⟩

theorem handles_swapRemove (fd : Fd) :
    (h.handles.swapRemove fd).get? = Kernel.dropHandle h.handles.get? fd := by
  funext g
  rw [IndexMap.get?_swapRemove]
  rfl

/-- **A call by the one who holds the descriptor**, and what becomes of the handle. -/
theorem syscall_safe (hh : h.Tidy) {c : Syscall} {fd : Fd} {handle : Handle} (hfd : c.fd? = some fd)
    (hown : h.handles.get? fd = some handle) (hperm : handle.permits c = true) :
    Safe (fun r => Safe Host.Tidy (h.settle handle r.1 c r.2)) (h.kernel.syscall c) := by
  cases c with
  | openSocket domain ty => cases hfd
  | bind addr ty => cases hfd
  | listen fd backlog => cases hperm
  | connect fd' peer =>
    cases hfd
    simp only [Handle.permits, Bool.or_eq_true, beq_iff_eq] at hperm
    refine Safe.bind (Kernel.pollConnect_safe hh hown hperm) fun r hr => ?_
    obtain ⟨k, r⟩ := r
    cases r with
    | pending => exact hr.1
    | ready r =>
      rcases hperm with rfl | rfl
      · exact hr.1
      · cases r with
        | ok u =>
          -- connected: the guard becomes a stream
          obtain ⟨st, hst, hw⟩ := hr.2 rfl u rfl
          refine tidy_of_stream hr.1 hst hw fun hq => ?_
          have := (hr.1.waiting fd hq).1
          rw [hown] at this
          cases this
        | error e =>
          -- refused: the guard is dropped
          refine Safe.bind (Kernel.close_safe hr.1 hown) fun k' hk' => ?_
          show Kernel.Tidy _ _ k'
          rw [handles_swapRemove]
          exact hk'
  | accept fd' =>
    cases hfd
    simp only [Handle.permits, beq_iff_eq] at hperm
    subst hperm
    refine Safe.bind (Kernel.pollAccept_safe hh hown) fun r hr => ?_
    obtain ⟨k, r⟩ := r
    cases r with
    | pending => exact hr.1
    | ready r =>
      cases r with
      | error e => exact hr.1
      | ok r =>
        obtain ⟨child, peer⟩ := r
        obtain ⟨hnone, hq, st, hst, hw⟩ := hr.2 child peer rfl
        exact tidy_of_stream hr.1 hst hw hq
  | send fd' buf =>
    cases hfd
    simp only [Handle.permits, Bool.or_eq_true, beq_iff_eq] at hperm
    exact Safe.bind (Kernel.pollSend_safe hh hown hperm buf) fun r hr => hr
  | sendTo fd' buf dst =>
    cases hfd
    simp only [Handle.permits, beq_iff_eq] at hperm
    subst hperm
    exact Safe.bind (Kernel.pollSendTo_safe hh hown buf dst) fun r hr => hr
  | recv fd' len =>
    cases hfd
    simp only [Handle.permits, Bool.or_eq_true, beq_iff_eq] at hperm
    exact Safe.bind (Kernel.pollRecv_safe hh hown hperm len) fun r hr => hr
  | recvFrom fd' len =>
    cases hfd
    simp only [Handle.permits, beq_iff_eq] at hperm
    subst hperm
    exact Safe.bind (Kernel.pollRecvFrom_safe hh hown len) fun r hr => hr
  | tryRecvVectored fd' lens =>
    exact Safe.bind (Kernel.tryRecvVectored_safe hh fd' lens) fun r hr => hr
  | peek fd' len =>
    cases hfd
    simp only [Handle.permits, beq_iff_eq] at hperm
    subst hperm
    exact Safe.bind (Kernel.pollPeek_safe hh hown len) fun r _ => hh
  | peekFrom fd' len =>
    cases hfd
    simp only [Handle.permits, beq_iff_eq] at hperm
    subst hperm
    exact Safe.bind (Kernel.pollPeekFrom_safe hh hown len) fun r _ => hh
  | shutdown fd' =>
    cases hfd
    simp only [Handle.permits, beq_iff_eq] at hperm
    subst hperm
    exact Safe.bind (Kernel.pollShutdownWrite_safe hh hown) fun r hr => hr
  | close fd' =>
    cases hfd
    refine Safe.bind (Kernel.close_safe hh hown) fun k' hk' => ?_
    show Kernel.Tidy _ _ k'
    rw [handles_swapRemove]
    exact hk'
  | setOption fd' opt => exact Kernel.setOption_tidy hh fd' opt

theorem call_safe (hh : h.Tidy) (c : Syscall) : Safe (fun r => r.1.Tidy) (h.call c) := by
  unfold call
  split
  · exact hh
  · rename_i handle hhandle
    obtain ⟨fd, hfd, hown⟩ := Option.bind_eq_some_iff.mp hhandle
    split
    · rename_i hperm
      exact Safe.bind (syscall_safe hh hfd hown hperm) fun r hr => Safe.bind hr fun h' hh' => hh'
    · exact hh

/-- **Every step of a host** keeps its tables in order, and fails no expectation. -/
theorem step_safe (hh : h.Tidy) (op : ShimOp) : Safe (fun r => r.1.Tidy) (h.step op) := by
  cases op with
  | listen addr => exact Safe.bind (listen_safe hh addr) fun r hr => hr
  | connect peer => exact connect_tidy hh peer
  | bindUdp addr => exact Safe.bind (bindUdp_safe hh addr) fun r hr => hr
  | call c => exact Safe.bind (call_safe hh c) fun r hr => hr
  | deliver pkt => exact Safe.bind (Kernel.deliver_safe hh pkt) fun r hr => hr
  | egress fuel => exact Safe.bind (Kernel.egress_safe hh fuel) fun r hr => hr

/-- So does every run. -/
theorem run_safe : ∀ {ops : List ShimOp} {h : Host}, h.Tidy → Safe Host.Tidy (h.run ops)
  | [], _, hh => hh
  | op :: _, _, hh => Safe.bind (step_safe hh op) fun _ hr => run_safe hr

/-- **Kernel table consistency.**  In every state a host reaches the four indices agree; and no
`expect` or `unwrap` fails there, neither in the run so far nor in what can come next: the delivery
of any packet, a poll of any listener, a turn of `egress` and the sweeps it makes. -/
theorem tables_consistent (cfg : KernelConfig) (addrs : List IpAddr) (ops : List ShimOp) :
    (∀ what, (Host.new cfg addrs).run ops ≠ .error (.expect what)) ∧
    ∀ h, (Host.new cfg addrs).run ops = .ok h →
      h.kernel.sockets.Consistent ∧
      ∀ what,
        (∀ pkt, h.kernel.deliver pkt ≠ .error (.expect what)) ∧
        (∀ fd, h.handles.get? fd = some .listener →
          h.kernel.pollAccept fd ≠ .error (.expect what)) ∧
        (∀ loc, h.kernel.findListener loc ≠ .error (.expect what)) ∧
        (∀ child loc, h.kernel.pushToListener child loc ≠ .error (.expect what)) ∧
        h.kernel.checkRetx ≠ .error (.expect what) ∧
        (∀ fd ∈ h.kernel.candidates Tcb.wantsSegment,
          h.kernel.segmentOne fd ≠ .error (.expect what)) ∧
        ∀ fuel, h.kernel.egress fuel ≠ .error (.expect what) := by
  have hrun : Safe Host.Tidy ((Host.new cfg addrs).run ops) := run_safe (new_tidy cfg addrs)
  refine ⟨hrun.ne_expect, fun h hh => ?_⟩
  have ht : h.Tidy := hrun.of_ok hh
  refine ⟨SocketTable.Tidy.consistent ht, fun what => ⟨fun pkt => ?_, fun fd hfd => ?_,
    fun loc => ?_, fun child loc => ?_, ?_, fun fd hfd => ?_, fun fuel => ?_⟩⟩
  · exact (Kernel.deliver_safe ht pkt).ne_expect what
  · exact (Kernel.pollAccept_safe ht hfd).ne_expect what
  · exact (Kernel.findListener_safe ht loc).ne_expect what
  · exact (Kernel.pushToListener_cases ht child loc).ne_expect what
  · exact (Kernel.checkRetx_safe ht).ne_expect what
  · obtain ⟨st, t, hst, htcb, -⟩ := Kernel.mem_candidates.mp hfd
    exact (Kernel.segmentOne_safe ht hst htcb).ne_expect what
  · exact (Kernel.egress_safe ht fuel).ne_expect what

/-- A server listens, and a client connects: the child waits to be accepted. -/
def queuedOps : List ShimOp :=
  let server : IpAddr := .v4 0x0A000001
  let client : IpAddr := .v4 0x0A000002
  let arrive (s : TcpSegment) : ShimOp := .deliver ⟨client, server, 64, .tcp s⟩
  [.listen ⟨.v4 0, 80⟩, arrive ⟨1000, 80, 5, 0, { syn := true }, 100, []⟩, .egress 3,
    arrive ⟨1000, 80, 6, 0x01000001, { ack := true }, 100, []⟩]

theorem tables_consistent_queued :
    ∃ h, (Host.new .default [.v4 0x0A000001]).run queuedOps = .ok h ∧ h.kernel.sockets.ready 1 = [2]
      ∧ h.kernel.sockets.Consistent := by
  have hrun : ((Host.new .default [.v4 0x0A000001]).run queuedOps).toOption.map
      (fun h => h.kernel.sockets.ready 1) = some [2] := by
    decide +kernel
  obtain ⟨h, hh, hready⟩ := Option.map_eq_some_iff.mp hrun
  have hok := toOption_eq_some.mp hh
  exact ⟨h, hok, hready, ((tables_consistent .default _ queuedOps).2 h hok).1⟩

end Host

end Turmoil.Net
