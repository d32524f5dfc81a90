/-
# Datagrams through a kernel

A datagram on its way is known by the host it is for, its port, its sender and its bytes.  `Passes` is
what a step of a kernel does to those it holds: what it gives to the application and what it still
holds was there before, or was sent in the step.

Datagrams have no number, and two of them may be equal in everything.  So they are counted: for each of
them, how often it is held, sent and received.  The counts are compared by an inequality because UDP
loses datagrams by design, and the inequality is enough to exclude that one is made up, changed or
delivered twice.

Who owns an address is a parameter (`own`), because a kernel knows it only for its own addresses.  The
fabric supplies its table later.
-/
import Turmoil.Network.Calls
import Turmoil.Network.Net

namespace Turmoil.Network

open Turmoil.Net
open Turmoil.Net.Kernel

/-! ## 1. What a kernel holds -/

/-- A datagram, and the host that owns the address it is sent to. -/
structure Item where
  host : Option HostId
  datagram : Datagram
  deriving DecidableEq, Repr

/-- A packet as a datagram; `own` says who owns an address. -/
def itemOf (own : IpAddr → Option HostId) (pkt : Packet) : Option Item :=
  match pkt.payload with
  | .udp d => some ⟨own pkt.dst, ⟨d.dstPort, ⟨pkt.src, d.srcPort⟩, d.payload⟩⟩
  | .tcp _ => none

def itemsOf (own : IpAddr → Option HostId) (pkts : List Packet) : List Item :=
  pkts.filterMap (itemOf own)

/-- What is in the queues of host `h`, and what waits to go out. -/
def held (own : IpAddr → Option HostId) (h : HostId) (k : Kernel) : List Item :=
  (queued k).map (Item.mk (some h)) ++ itemsOf own k.outbound

/-- What a send that is accepted adds. -/
def sentItem (own : IpAddr → Option HostId) (k : Kernel) (fd : Fd) (buf : List UInt8)
    (dst : SocketAddr) : Option Item :=
  ((k.lookup fd).bind Socket.bound).map fun key =>
    ⟨own dst.ip, ⟨dst.port, ⟨k.udpSource key dst, key.localPort⟩, buf⟩⟩

/-- A socket for datagrams. -/
def dgram? (k : Kernel) (fd : Fd) : Option Socket := (k.lookup fd).filter fun st => st.ty = .dgram

namespace Net.Called

/-- The datagram that a call sends. -/
def sent (own : HostId → IpAddr → Option HostId) (c : Called) : List Item :=
  match c.call, c.reply with
  | .sendTo fd buf dst, .size (.ready (.ok _)) => (sentItem (own c.host) c.after fd buf dst).toList
  | .send fd buf, .size (.ready (.ok _)) =>
    (((dgram? c.before fd).bind Socket.peer).bind (sentItem (own c.host) c.after fd buf)).toList
  | _, _ => []

/-- The datagram that a call takes out of the queue of its socket. -/
def received (c : Called) : List Item :=
  match c.call, c.reply with
  | .recvFrom fd _, .datagram (.ready (.ok _)) => first c fd
  | .recv fd _, .bytes (.ready (.ok _)) => first c fd
  | _, _ => []
where
  first (c : Called) (fd : Fd) : List Item :=
    ((dgram? c.before fd).bind fun st => (queuedOn st).head?).toList.map (Item.mk (some c.host))

end Net.Called

/-- **What a step of a kernel does to its datagrams**: those it gives to the application, with those it
still holds, were there before or were sent in the step.  It is an inequality because a datagram may
also be dropped, with a full queue or a socket that is closed. -/
structure Passes (own : IpAddr → Option HostId) (h : HostId) (k k' : Kernel) (sent received : List Item) :
    Prop where
  addresses : k'.addresses = k.addresses
  bound : Bound k'
  count : ∀ x, received.count x + (held own h k').count x ≤ (held own h k).count x + sent.count x

variable {own : IpAddr → Option HostId} {h : HostId} {k k' : Kernel} {fd : Fd}

theorem itemsOf_append (pkts pkts' : List Packet) :
    itemsOf own (pkts ++ pkts') = itemsOf own pkts ++ itemsOf own pkts' := List.filterMap_append

theorem itemsOf_cons (pkt : Packet) (pkts : List Packet) :
    itemsOf own (pkt :: pkts) = (itemOf own pkt).toList ++ itemsOf own pkts := by
  cases hp : itemOf own pkt with
  | none => exact List.filterMap_cons_none hp
  | some i => exact List.filterMap_cons_some hp

/-- A framed step neither sends nor receives: all it may do to a datagram is to drop it. -/
theorem Frame.passes (hf : Frame k k') : Passes own h k k' [] [] := by
  refine ⟨hf.addresses, hf.bound, fun x => ?_⟩
  obtain ⟨pkts, hout, htcp⟩ := hf.outbound
  have hnone : itemsOf own pkts = [] := List.filterMap_eq_nil_iff.mpr fun p hp => by
    obtain ⟨s, hs⟩ := htcp p hp
    rw [itemOf, hs]
  obtain ⟨l, hl, hsub⟩ := hf.queued
  have hqueued := (hsub.map (Item.mk (some h))).count_le x
  rw [(hl.map _).count_eq] at hqueued
  rw [held, held, hout, itemsOf_append, hnone]
  simp only [List.count_append, List.count_nil]
  omega

/-! ## 2. Sending and receiving -/

variable (own h) in
/-- **A send is refused and changes nothing that matters, or it adds one datagram** to those that go
out.  Its sender is the port of the socket, which the send may have bound on the way. -/
theorem udpSendTo_passes (hb : Bound k) {st : Socket} {buf : List UInt8} {dst : SocketAddr}
    {r : Poll (Except NetError Nat)} (hst : k.lookup fd = some st)
    (hsend : k.udpSendTo fd buf dst = .ok (k', r)) :
    (Frame k k' ∧ ∀ n, r ≠ .ready (.ok n))
      ∨ ((∃ n, r = .ready (.ok n)) ∧ Passes own h k k' (sentItem own k' fd buf dst).toList []) := by
  obtain ⟨st', hst', hsend⟩ := bind_eq_ok.mp hsend
  cases (expect_eq_ok.mp hst').symm.trans hst
  split at hsend
  · cases hsend
    exact .inl ⟨.refl hb, fun n e => by cases e⟩
  · split at hsend
    · cases hsend
      exact .inl ⟨.refl hb, fun n e => by cases e⟩
    · obtain ⟨⟨k₁, bound⟩, h₁, hsend⟩ := bind_eq_ok.mp hsend
      obtain ⟨hf, hkey⟩ := ensureBound_frame hb hst h₁
      dsimp only at hsend
      split at hsend
      · cases hsend
        exact .inl ⟨hf, fun n e => by cases e⟩
      · rename_i key
        cases hsend
        obtain ⟨st₁, hst₁, hbound⟩ := hkey key rfl
        refine .inr ⟨⟨_, rfl⟩, hf.addresses, ?_, fun x => ?_⟩
        · exact ⟨hf.bound.listed, hf.bound.unbound, hf.bound.owned, hf.bound.fresh, hf.bound.indexed⟩
        · have hsent : sentItem own (k₁.pushOutbound ⟨k₁.udpSource key dst, dst.ip, 64,
              .udp ⟨key.localPort, dst.port, buf⟩⟩) fd buf dst
              = some ⟨own dst.ip, ⟨dst.port, ⟨k₁.udpSource key dst, key.localPort⟩, buf⟩⟩ := by
            rw [sentItem, lookup_pushOutbound, hst₁]
            show (st₁.bound).map _ = _
            rw [hbound]
            rfl
          have hcount := (hf.passes : Passes own h k k₁ [] []).count x
          rw [hsent]
          simp only [held, pushOutbound, itemsOf_append, List.count_append, List.count_nil] at hcount ⊢
          have hone : itemsOf own [⟨k₁.udpSource key dst, dst.ip, 64,
              .udp ⟨key.localPort, dst.port, buf⟩⟩]
              = [⟨own dst.ip, ⟨dst.port, ⟨k₁.udpSource key dst, key.localPort⟩, buf⟩⟩] := rfl
          rw [hone]
          show _ ≤ _ + [_].count x
          have hsame : queued (k₁.pushOutbound ⟨k₁.udpSource key dst, dst.ip, 64,
              .udp ⟨key.localPort, dst.port, buf⟩⟩) = queued k₁ := rfl
          simp only [pushOutbound] at hsame
          rw [hsame]
          omega

variable (own h) in
/-- A socket changes its queue. -/
theorem held_modify {st : Socket} (hst : k.lookup fd = some st) (f : Socket → Socket) (x : Item) :
    (held own h (k.modifySocket fd f)).count x + ((queuedOn st).map (Item.mk (some h))).count x
      = (held own h k).count x + ((queuedOn (f st)).map (Item.mk (some h))).count x := by
  obtain ⟨l₁, l₂, hentries, hmodify⟩ := IndexMap.modify_split
    (show k.sockets.sockets.get? fd = some st from hst)
  have hq : queued (k.modifySocket fd f)
      = (l₁.flatMap fun e => queuedOn e.2) ++ (queuedOn (f st) ++ l₂.flatMap fun e => queuedOn e.2) := by
    show (k.sockets.sockets.modify fd f).entries.flatMap _ = _
    rw [hmodify, List.flatMap_append, List.flatMap_cons]
  have hq' : queued k
      = (l₁.flatMap fun e => queuedOn e.2) ++ (queuedOn st ++ l₂.flatMap fun e => queuedOn e.2) := by
    rw [queued, hentries, List.flatMap_append, List.flatMap_cons]
  rw [held, held, hq, hq']
  simp only [List.map_append, List.count_append]
  show _ + _ + List.count x (itemsOf own k.outbound) + _ = _
  omega

/-- Only the queue of a bound socket changes. -/
theorem bound_modify (hb : Bound k) {st : Socket} {key : BindKey} (hst : k.lookup fd = some st)
    (hkey : st.bound = some key) {f : Socket → Socket} (hf : (f st).bound = st.bound) :
    Bound (k.modifySocket fd f) := by
  have hl : ∀ {g st'}, (k.modifySocket fd f).lookup g = some st' →
      (g = fd ∧ st' = f st) ∨ k.lookup g = some st' := by
    intro g st' h
    rw [lookup_modifySocket] at h
    split at h
    · rename_i hg
      rw [hst] at h
      cases h
      exact .inl ⟨hg, rfl⟩
    · exact .inr h
  refine ⟨?_, ?_, ?_, ?_, hb.indexed⟩
  · intro key' g st' hg h
    rcases hl h with ⟨rfl, rfl⟩ | h
    · rw [hf]
      exact hb.listed hg hst
    · exact hb.listed hg h
  · intro g st' h hnone
    rcases hl h with ⟨rfl, rfl⟩ | h
    · rw [hf, hkey] at hnone
      cases hnone
    · exact hb.unbound h hnone
  · intro g st' key' h hkey'
    rcases hl h with ⟨rfl, rfl⟩ | h
    · rw [hf] at hkey'
      exact hb.owned hst hkey'
    · exact hb.owned h hkey'
  · intro g st' h
    rcases hl h with ⟨rfl, rfl⟩ | h
    · exact hb.fresh hst
    · exact hb.fresh h

variable (own h) in
/-- **A receive waits, or takes the head of the queue**, whole: what does not fit into the buffer is
lost with it.  The invariant supplies the port: a socket with something in its queue is bound. -/
theorem udpRecvFrom_passes (hb : Bound k) {st : Socket} (len : Nat) (hst : k.lookup fd = some st) :
    (k.udpRecvFrom fd st len = (k, .pending))
      ∨ ∃ d rest, k.udpRecvFrom fd st len = (rest, .ready (d.sender, d.payload.take len))
        ∧ (queuedOn st).head? = some d ∧ Passes own h k rest [] [⟨some h, d⟩] := by
  unfold udpRecvFrom
  cases hqueue : st.recvQueue with
  | nil => exact .inl rfl
  | cons q rest =>
    obtain ⟨sender, payload⟩ := q
    obtain ⟨key, hkey⟩ : ∃ key, st.bound = some key := by
      cases hkey : st.bound with
      | none =>
        rw [hb.unbound hst hkey] at hqueue
        cases hqueue
      | some key => exact ⟨key, rfl⟩
    have hon : queuedOn st = ⟨key.localPort, sender, payload⟩
        :: queuedOn { st with recvQueue := rest } := by
      rw [queuedOn, queuedOn, hkey, hqueue]
      rfl
    refine .inr ⟨⟨key.localPort, sender, payload⟩, _, rfl, by rw [hon]; rfl, rfl, ?_, fun x => ?_⟩
    · exact bound_modify hb hst hkey rfl
    · have hcount := held_modify own h hst (fun st => { st with recvQueue := rest }) x
      rw [hon, List.map_cons, List.count_cons] at hcount
      simp only [List.count_cons, List.count_nil]
      omega

/-- A datagram that arrives is put in at most one queue, of a socket at its port. -/
theorem udpDeliver_passes (hb : Bound k) {pkt : Packet} {d : UdpDatagram} (hp : pkt.payload = .udp d)
    (hown : own pkt.dst = some h) (hd : k.udpDeliver pkt d = .ok k') :
    Passes own h k k' (itemOf own pkt).toList [] := by
  have hsame : Passes own h k k (itemOf own pkt).toList [] :=
    ⟨rfl, hb, fun x => by rw [List.count_nil]; omega⟩
  unfold udpDeliver at hd
  dsimp only at hd
  split at hd
  · cases hd
    exact hsame
  · rename_i g hg
    obtain ⟨st, hst, hd⟩ := bind_eq_ok.mp hd
    replace hst := expect_eq_ok.mp hst
    split at hd
    · cases hd
      exact hsame
    · cases hd
      obtain ⟨key, hkey, hport⟩ : ∃ key, st.bound = some key ∧ key.localPort = d.dstPort := by
        simp only [Option.orElse_eq_orElse, Option.orElse_eq_or, Option.or_eq_some_iff] at hg
        rcases hg with hg | ⟨-, hg⟩
        · exact ⟨_, hb.listed (List.mem_of_head? hg) hst, rfl⟩
        · exact ⟨_, hb.listed (List.mem_of_head? hg) hst, rfl⟩
      refine ⟨rfl, bound_modify hb hst hkey rfl, fun x => ?_⟩
      have hcount := held_modify own h hst
        (fun st => { st with recvQueue := st.recvQueue ++ [(⟨pkt.src, d.srcPort⟩, d.payload)] }) x
      have hon : queuedOn { st with recvQueue := st.recvQueue ++ [(⟨pkt.src, d.srcPort⟩, d.payload)] }
          = queuedOn st ++ [⟨d.dstPort, ⟨pkt.src, d.srcPort⟩, d.payload⟩] := by
        rw [queuedOn, queuedOn, hkey, ← hport]
        exact List.map_append
      have hitem : itemOf own pkt = some ⟨some h, ⟨d.dstPort, ⟨pkt.src, d.srcPort⟩, d.payload⟩⟩ := by
        rw [itemOf, hp, hown]
      rw [hon, List.map_append, List.count_append] at hcount
      rw [hitem, List.count_nil]
      show _ ≤ _ + [_].count x
      rw [List.map_singleton] at hcount
      omega

/-! ## 3. The calls of the application -/

theorem dgram?_eq {st : Socket} (hst : k.lookup fd = some st) (hty : st.ty = .dgram) :
    dgram? k fd = some st := by
  rw [dgram?, hst, Option.filter_some, if_pos (decide_eq_true hty)]

/-- A stream has bytes to send and receive, but no datagrams. -/
theorem dgram?_eq_none {st : Socket} (hst : k.lookup fd = some st) (hty : st.ty = .stream) :
    dgram? k fd = none := by
  rw [dgram?, hst, Option.filter_some, if_neg (by rw [hty]; decide)]

/-- Only a send that is accepted sends. -/
theorem sent_eq_nil {owner : HostId → IpAddr → Option HostId} {c : Net.Called}
    (hr : ∀ n, c.reply ≠ .size (.ready (.ok n))) : c.sent owner = [] := by
  unfold Net.Called.sent
  split
  · rename_i hreply
    exact absurd hreply (hr _)
  · rename_i hreply
    exact absurd hreply (hr _)
  · rfl

/-- A `send` goes to the peer of the socket; on a stream it is TCP and sends no datagram. -/
theorem pollSend_passes (hb : Bound k) {buf : List UInt8} {r : Poll (Except NetError Nat)}
    {owner : HostId → IpAddr → Option HostId} (hk : k.pollSend fd buf = .ok (k', r)) :
    Passes (owner h) h k k' (Net.Called.sent owner ⟨h, k, .send fd buf, .size r, k'⟩) [] := by
  unfold pollSend at hk
  split at hk
  · cases hk
    exact Frame.passes (.refl hb)
  · rename_i st hst
    split at hk
    · rename_i hty
      split at hk
      · cases hk
        exact Frame.passes (.refl hb)
      · rename_i peer hpeer
        have hdgram : (dgram? k fd).bind Socket.peer = some peer := by
          rw [dgram?_eq hst hty]
          exact hpeer
        rcases udpSendTo_passes (owner h) h hb hst hk with ⟨hf, hr⟩ | ⟨⟨n, rfl⟩, hp⟩
        · rw [sent_eq_nil fun n e => hr n (Reply.size.inj e)]
          exact hf.passes
        · show Passes _ _ _ _ (((dgram? k fd).bind Socket.peer).bind _).toList _
          rw [hdgram]
          exact hp
    · rename_i hty
      have hnone := dgram?_eq_none hst hty
      have hsent : ∀ r, Net.Called.sent owner ⟨h, k, .send fd buf, .size r, k'⟩ = [] := fun r => by
        unfold Net.Called.sent
        split
        · contradiction
        · rename_i hcall hreply
          cases hcall
          show (((dgram? k fd).bind Socket.peer).bind _).toList = _
          rw [hnone]
          rfl
        · rfl
      obtain ⟨rfl, rfl⟩ := Prod.ext_iff.mp (Except.ok.inj hk)
      rw [hsent]
      exact (tcpPollSend_frame hb buf).passes
    · cases hk

theorem pollSendTo_passes (hb : Bound k) {buf : List UInt8} {dst : SocketAddr}
    {r : Poll (Except NetError Nat)} {owner : HostId → IpAddr → Option HostId}
    (hk : k.pollSendTo fd buf dst = .ok (k', r)) :
    Passes (owner h) h k k' (Net.Called.sent owner ⟨h, k, .sendTo fd buf dst, .size r, k'⟩) [] := by
  unfold pollSendTo at hk
  split at hk
  · cases hk
    exact Frame.passes (.refl hb)
  · rename_i st hst
    split at hk
    · cases hk
    · split at hk
      · cases hk
        exact Frame.passes (.refl hb)
      · rcases udpSendTo_passes (owner h) h hb hst hk with ⟨hf, hr⟩ | ⟨⟨n, rfl⟩, hp⟩
        · rw [sent_eq_nil fun n e => hr n (Reply.size.inj e)]
          exact hf.passes
        · exact hp

theorem pollRecv_passes (hb : Bound k) {len : Nat} {r : Poll (Except NetError (List UInt8))}
    (hk : k.pollRecv fd len = .ok (k', r)) :
    Passes own h k k' [] (Net.Called.received ⟨h, k, .recv fd len, .bytes r, k'⟩) := by
  unfold pollRecv at hk
  split at hk
  · cases hk
    exact Frame.passes (.refl hb)
  · rename_i st hst
    split at hk
    · rename_i hty
      have hdgram := dgram?_eq hst hty
      rcases udpRecvFrom_passes own h hb len hst with
        hrecv | ⟨d, rest, hrecv, hhead, hp⟩
      · rw [hrecv] at hk
        cases hk
        exact Frame.passes (.refl hb)
      · rw [hrecv] at hk
        cases hk
        show Passes _ _ _ _ _ (((dgram? k fd).bind _).toList.map _)
        rw [hdgram]
        show Passes _ _ _ _ _ ((queuedOn st).head?.toList.map _)
        rw [hhead]
        exact hp
    · rename_i hty
      have hnone := dgram?_eq_none hst hty
      have hreceived : ∀ r, Net.Called.received ⟨h, k, .recv fd len, .bytes r, k'⟩ = [] := fun r => by
        unfold Net.Called.received
        split
        · contradiction
        · rename_i hcall hreply
          cases hcall
          show ((dgram? k fd).bind _).toList.map _ = _
          rw [hnone]
          rfl
        · rfl
      rw [hreceived]
      exact (tcpPollRecvVectored_frame hb hk).passes
    · cases hk

variable (own h) in
/-- **What `recvFrom` returns is what it takes**: the sender of the head of the queue, and as many of
its bytes as the buffer has room for.  The second part is what an application sees of all this. -/
theorem pollRecvFrom_passes (hb : Bound k) {len : Nat}
    {r : Poll (Except NetError (SocketAddr × List UInt8))} (hk : k.pollRecvFrom fd len = .ok (k', r)) :
    Passes own h k k' [] (Net.Called.received ⟨h, k, .recvFrom fd len, .datagram r, k'⟩)
      ∧ ∀ sender bytes, r = .ready (.ok (sender, bytes)) → ∃ d : Datagram, d.sender = sender
        ∧ bytes = d.payload.take len ∧ (∃ st key, k.lookup fd = some st ∧ st.bound = some key
          ∧ key.localPort = d.port)
        ∧ Net.Called.received ⟨h, k, .recvFrom fd len, .datagram r, k'⟩ = [⟨some h, d⟩] := by
  unfold pollRecvFrom at hk
  split at hk
  · cases hk
    exact ⟨Frame.passes (.refl hb), fun _ _ e => by cases e⟩
  · rename_i st hst
    split at hk
    · cases hk
    · rename_i hty
      have hdgram := dgram?_eq hst (not_not.mp hty)
      rcases udpRecvFrom_passes own h hb len hst with
        hrecv | ⟨d, rest, hrecv, hhead, hp⟩
      · rw [hrecv] at hk
        cases hk
        exact ⟨Frame.passes (.refl hb), fun _ _ e => by cases e⟩
      · rw [hrecv] at hk
        cases hk
        have hreceived : Net.Called.received ⟨h, k, .recvFrom fd len,
            .datagram (.ready (.ok (d.sender, d.payload.take len))), k'⟩ = [⟨some h, d⟩] := by
          show ((dgram? k fd).bind _).toList.map _ = _
          rw [hdgram]
          show (queuedOn st).head?.toList.map _ = _
          rw [hhead]
          rfl
        rw [hreceived]
        refine ⟨hp, fun sender bytes e => ?_⟩
        cases e
        refine ⟨d, rfl, rfl, ?_, rfl⟩
        have hmem := List.mem_of_mem_head? hhead
        unfold queuedOn at hmem
        split at hmem
        · rename_i key hkey
          obtain ⟨q, -, rfl⟩ := List.mem_map.mp hmem
          exact ⟨st, key, hst, hkey, rfl⟩
        · cases hmem

/-- **A call of the application**: the other calls are framed. -/
theorem syscall_passes (h : HostId) (owner : HostId → IpAddr → Option HostId) (hb : Bound k)
    {c : Syscall} {r : Reply} (hc : k.syscall c = .ok (k', r)) :
    Passes (owner h) h k k' (Net.Called.sent owner ⟨h, k, c, r, k'⟩)
      (Net.Called.received ⟨h, k, c, r, k'⟩) := by
  cases c with
  | openSocket domain ty =>
    cases hc
    exact (Frame.open hb domain ty).passes
  | bind addr ty =>
    obtain ⟨⟨k₁, r₁⟩, h₁, hc⟩ := bind_eq_ok.mp hc
    cases hc
    exact (bind_frame hb h₁).passes
  | listen fd backlog =>
    obtain ⟨⟨k₁, r₁⟩, h₁, hc⟩ := bind_eq_ok.mp hc
    cases hc
    exact (listen_frame hb h₁).passes
  | connect fd peer =>
    obtain ⟨⟨k₁, r₁⟩, h₁, hc⟩ := bind_eq_ok.mp hc
    cases hc
    exact (pollConnect_frame hb h₁).passes
  | accept fd =>
    obtain ⟨⟨k₁, r₁⟩, h₁, hc⟩ := bind_eq_ok.mp hc
    cases hc
    exact (pollAccept_frame hb h₁).passes
  | send fd buf =>
    obtain ⟨⟨k₁, r₁⟩, h₁, hc⟩ := bind_eq_ok.mp hc
    cases hc
    exact pollSend_passes hb h₁
  | sendTo fd buf dst =>
    obtain ⟨⟨k₁, r₁⟩, h₁, hc⟩ := bind_eq_ok.mp hc
    cases hc
    exact pollSendTo_passes hb h₁
  | recv fd len =>
    obtain ⟨⟨k₁, r₁⟩, h₁, hc⟩ := bind_eq_ok.mp hc
    cases hc
    exact pollRecv_passes hb h₁
  | recvFrom fd len =>
    obtain ⟨⟨k₁, r₁⟩, h₁, hc⟩ := bind_eq_ok.mp hc
    cases hc
    exact (pollRecvFrom_passes (owner h) h hb h₁).1
  | tryRecvVectored fd lens =>
    obtain ⟨⟨k₁, r₁⟩, h₁, hc⟩ := bind_eq_ok.mp hc
    cases hc
    refine Frame.passes ?_
    unfold tryRecvVectored at h₁
    split at h₁
    · cases h₁
      exact .refl hb
    · split at h₁
      · cases h₁
        exact .refl hb
      · obtain ⟨⟨k₂, r₂⟩, h₂, h₁⟩ := bind_eq_ok.mp h₁
        have hf := tcpPollRecvVectored_frame hb h₂
        split at h₁
        · rename_i heq
          cases heq
          cases h₁
          exact hf
        · rename_i heq
          cases heq
          cases h₁
          exact hf
  | peek fd len =>
    obtain ⟨r₁, h₁, hc⟩ := bind_eq_ok.mp hc
    cases hc
    exact Frame.passes (.refl hb)
  | peekFrom fd len =>
    obtain ⟨r₁, h₁, hc⟩ := bind_eq_ok.mp hc
    cases hc
    exact Frame.passes (.refl hb)
  | shutdown fd =>
    obtain ⟨⟨k₁, r₁⟩, h₁, hc⟩ := bind_eq_ok.mp hc
    cases hc
    refine Frame.passes ?_
    unfold pollShutdownWrite at h₁
    split at h₁
    · cases h₁
      exact .refl hb
    · split at h₁
      · obtain ⟨rfl, rfl⟩ := Prod.ext_iff.mp (Except.ok.inj h₁)
        exact tcpPollShutdownWrite_frame hb
      · cases h₁
  | close fd =>
    obtain ⟨k₁, h₁, hc⟩ := bind_eq_ok.mp hc
    cases hc
    exact (close_frame hb h₁).passes
  | setOption fd opt =>
    cases hc
    exact (setOption_frame hb opt).passes

/-! ## 4. The two ends of the stack -/

variable (own h) in
/-- A packet that arrives at its host brings at most its own datagram. -/
theorem deliver_passes (hb : Bound k) {pkt : Packet} (hown : own pkt.dst = some h)
    (hlocal : k.isLocal pkt.dst = true) (hd : k.deliver pkt = .ok k') :
    Passes own h k k' (itemOf own pkt).toList [] := by
  unfold deliver at hd
  split at hd
  · rename_i d hp
    exact udpDeliver_passes hb hp hown hd
  · rename_i s hp
    have hnone : itemOf own pkt = none := by rw [itemOf, hp]
    rw [hnone]
    exact (tcpDeliver_frame hb hlocal hd).passes

/-- The addresses of the host are its own. -/
def OwnsLocal (own : IpAddr → Option HostId) (h : HostId) (k : Kernel) : Prop :=
  ∀ ip, k.isLocal ip = true → own ip = some h

theorem OwnsLocal.of_addresses (ho : OwnsLocal own h k) (ha : k'.addresses = k.addresses) :
    OwnsLocal own h k' := fun ip hip => ho ip (by rwa [isLocal, ha] at hip)

theorem isLocal_of_addresses (ha : k'.addresses = k.addresses) (ip : IpAddr) :
    k'.isLocal ip = k.isLocal ip := by rw [isLocal, isLocal, ha]

variable (own h) in
/-- **Routing**: a packet for the host itself is delivered at once, which may put new packets on the
way, and the others leave.  So what leaves is for other hosts, and no datagram is on both sides. -/
theorem route_leaves {pkts : List Packet} : ∀ {k k' : Kernel} {out : List Packet}, Bound k →
    OwnsLocal own h k → route k pkts = .ok (k', out) →
    k'.addresses = k.addresses ∧ Bound k' ∧ (∀ p ∈ out, k.isLocal p.dst = false)
      ∧ ∀ x, (held own h k').count x + (itemsOf own out).count x
        ≤ (held own h k).count x + (itemsOf own pkts).count x := by
  induction pkts with
  | nil =>
    intro k k' out hb _ hr
    cases hr
    exact ⟨rfl, hb, fun p hp => absurd hp List.not_mem_nil, fun x => Nat.le_refl _⟩
  | cons pkt pkts ih =>
    intro k k' out hb ho hr
    unfold route at hr
    split at hr
    · rename_i hlocal
      obtain ⟨k₁, h₁, hr⟩ := bind_eq_ok.mp hr
      have hp := deliver_passes own h hb (ho _ hlocal) hlocal h₁
      obtain ⟨ha, hb', hout, hcount⟩ := ih hp.bound (ho.of_addresses hp.addresses) hr
      refine ⟨ha.trans hp.addresses, hb', fun p hp' => ?_, fun x => ?_⟩
      · rw [← isLocal_of_addresses hp.addresses]
        exact hout p hp'
      · have hx := hp.count x
        have hx' := hcount x
        rw [itemsOf_cons, List.count_append]
        omega
    · rename_i hlocal
      obtain ⟨⟨k₁, out₁⟩, h₁, hr⟩ := bind_eq_ok.mp hr
      cases hr
      obtain ⟨ha, hb', hout, hcount⟩ := ih hb ho h₁
      refine ⟨ha, hb', fun p hp => ?_, fun x => ?_⟩
      · rcases List.mem_cons.mp hp with rfl | hp
        · exact Bool.eq_false_iff.mpr hlocal
        · exact hout p hp
      · have hx := hcount x
        simp only [itemsOf_cons, List.count_append]
        omega

/-- What a turn of `egress` does: what leaves was held, and is for others. -/
structure Leaves (own : IpAddr → Option HostId) (h : HostId) (k k' : Kernel) (out : List Packet) :
    Prop where
  addresses : k'.addresses = k.addresses
  bound : Bound k'
  outside : ∀ p ∈ out, k.isLocal p.dst = false
  count : ∀ x, (held own h k').count x + (itemsOf own out).count x ≤ (held own h k).count x

theorem Leaves.frame_left {k₁ : Kernel} {out : List Packet} (hf : Frame k k₁)
    (hl : Leaves own h k₁ k' out) : Leaves own h k k' out := by
  refine ⟨hl.addresses.trans hf.addresses, hl.bound, fun p hp => ?_, fun x => ?_⟩
  · rw [← isLocal_of_addresses hf.addresses]
    exact hl.outside p hp
  · have hx := (hf.passes : Passes own h k k₁ [] []).count x
    have hx' := hl.count x
    rw [List.count_nil] at hx
    omega

theorem Leaves.frame_right {k₁ : Kernel} {out : List Packet} (hl : Leaves own h k k₁ out)
    (hf : Frame k₁ k') : Leaves own h k k' out := by
  refine ⟨hf.addresses.trans hl.addresses, hf.bound, hl.outside, fun x => ?_⟩
  have hx := (hf.passes : Passes own h k₁ k' [] []).count x
  have hx' := hl.count x
  rw [List.count_nil] at hx
  omega

/-- A turn of the loop cuts segments, then routes all that waits to go out; the next turn starts with
what the deliveries to the host itself have added.  The induction is on the fuel, and a loop that runs
out of it does not return. -/
theorem egressLoop_leaves (fuel : Nat) : ∀ {k k' : Kernel} {out : List Packet}, Bound k →
    OwnsLocal own h k → egressLoop fuel k = .ok (k', out) → Leaves own h k k' out := by
  induction fuel with
  | zero =>
    intro k k' out _ _ hl
    cases hl
  | succ fuel ih =>
    intro k k' out hb ho hl
    obtain ⟨k₁, h₁, hl⟩ := bind_eq_ok.mp hl
    have hf := segmentAll_frame hb h₁
    refine .frame_left hf ?_
    split at hl
    · cases hl
      exact ⟨rfl, hf.bound, fun p hp => absurd hp List.not_mem_nil, fun x => Nat.le_refl _⟩
    · obtain ⟨⟨k₂, out₂⟩, h₂, hl⟩ := bind_eq_ok.mp hl
      obtain ⟨⟨k₃, out₃⟩, h₃, hl⟩ := bind_eq_ok.mp hl
      cases hl
      have ho₁ := ho.of_addresses hf.addresses
      have hb₁ := hf.bound
      obtain ⟨ha₂, hb₂, hout₂, hcount₂⟩ := route_leaves own h
        (k := { k₁ with outbound := [] })
        ⟨hb₁.listed, hb₁.unbound, hb₁.owned, hb₁.fresh, hb₁.indexed⟩ ho₁ h₂
      have hl₃ := ih hb₂ (OwnsLocal.of_addresses (k := k₁) ho₁ ha₂) h₃
      refine ⟨hl₃.addresses.trans ha₂, hl₃.bound, fun p hp => ?_, fun x => ?_⟩
      · rcases List.mem_append.mp hp with hp | hp
        · exact hout₂ p hp
        · rw [← isLocal_of_addresses (k := k₁) ha₂]
          exact hl₃.outside p hp
      · have hx₂ := hcount₂ x
        have hx₃ := hl₃.count x
        rw [itemsOf_append, List.count_append]
        -- the packets that are routed no longer wait to go out
        have hdrained : held own h { k₁ with outbound := [] } ++ itemsOf own k₁.outbound
            = held own h k₁ := by
          show (_ ++ []) ++ _ = _
          rw [List.append_nil]
          rfl
        rw [← hdrained, List.count_append]
        omega

variable (own h) in
/-- **A turn of a host**: the retransmission sweep, the loop, and the sweep of closed sockets. -/
theorem egress_leaves (hb : Bound k) (ho : OwnsLocal own h k) {fuel : Nat} {out : List Packet}
    (hk : k.egress fuel = .ok (k', out)) : Leaves own h k k' out := by
  obtain ⟨k₁, h₁, hk⟩ := bind_eq_ok.mp hk
  obtain ⟨⟨k₂, out₂⟩, h₂, hk⟩ := bind_eq_ok.mp hk
  cases hk
  have hf := checkRetx_frame hb h₁
  have hl := egressLoop_leaves fuel hf.bound (ho.of_addresses hf.addresses) h₂
  exact (hl.frame_left hf).frame_right (reapClosed_frame hl.bound)

end Turmoil.Network
