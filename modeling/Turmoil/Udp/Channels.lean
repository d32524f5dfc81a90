/-
# One step of the sockets

`step_bag`: a step moves packets between the bag of those under way and the events.  `step_change`: a
step changes at most one socket, in one of four ways.

The two say everything about a step that the theorems need, and they are the only places where the
steps are gone through one by one.  A socket is seen here as what decides what it receives: its
channel, its address, its capacity, its queue and its buffer.  Flags, targets and the cursor of the
ports are left out, so that a step that changes only these is a step that changes no socket.

`Change` names the channel that a step is about.  On all others nothing is accepted or returned
(`Silent`), which is why the invariants of `Udp.Received` need to look at one channel only.
-/
import Turmoil.Udp.Trace

namespace Turmoil.Udp

open Turmoil.Net (IpAddr SocketAddr NetError)
open Turmoil.Stream (matchesBind isSame)

/-! ## 1. The bag -/

namespace World

variable {w w' : World} {ev : List Event}

/-- The packets under way. -/
def bag (w : World) : List Packet := w.flight ++ w.loops.map Prod.snd

/-- **What a step does to the packets under way**: those before it, with those it sends, are those
after it, with those that are gone.  It is an equality up to order, so nothing is sent twice, and
nothing vanishes without an event. -/
def Moves (w w' : World) (ev : List Event) : Prop :=
  (w'.bag ++ goneOf ev).Perm (w.bag ++ sentOf ev)

theorem Moves.of_eq (hf : w'.flight = w.flight) (hl : w'.loops = w.loops) (hg : goneOf ev = [])
    (hs : sentOf ev = []) : Moves w w' ev := by
  rw [Moves, hg, hs, bag, bag, hf, hl]

/-- **The copies of a send** are put on the links and in the tasks one by one, and each is an event.
When one has no link the rest is not sent, and not counted as sent. -/
theorem emit_moves {h : IpAddr} {src : SocketAddr} {d : Datagram} : ∀ (ts : List Target)
    (w : World), Moves w (emit h src d ts w).1 (emit h src d ts w).2.2
      ∧ (emit h src d ts w).1.hosts = w.hosts ∧ (emit h src d ts w).1.channels = w.channels
      ∧ (emit h src d ts w).1.groups = w.groups
      ∧ ∀ e ∈ (emit h src d ts w).2.2, ∃ p, e = .sent p := by
  intro ts
  induction ts with
  | nil =>
    intro w
    exact ⟨.of_eq rfl rfl rfl rfl, rfl, rfl, rfl, fun e he => absurd he List.not_mem_nil⟩
  | cons t ts ih =>
    intro w
    cases t with
    | nowhere => exact ih w
    | loopback dst =>
      obtain ⟨hm, hh, hc, hg, hsent⟩ := ih { w with loops := w.loops ++ [(h, ⟨src, dst, d⟩)] }
      refine ⟨?_, hh, hc, hg, fun e he => ?_⟩
      · refine hm.trans ?_
        rw [bag, bag, List.map_append]
        simp only [List.append_assoc]
        rfl
      · rcases List.mem_cons.mp he with rfl | he
        · exact ⟨_, rfl⟩
        · exact hsent e he
    | network dst =>
      rw [emit]
      split
      · obtain ⟨hm, hh, hc, hg, hsent⟩ := ih { w with flight := w.flight ++ [⟨src, dst, d⟩] }
        refine ⟨?_, hh, hc, hg, fun e he => ?_⟩
        · refine hm.trans ?_
          rw [bag, bag]
          simp only [List.append_assoc]
          refine List.Perm.append_left _ ?_
          exact List.perm_append_comm_assoc _ _ _
        · rcases List.mem_cons.mp he with rfl | he
          · exact ⟨_, rfl⟩
          · exact hsent e he
      · exact ⟨.of_eq rfl rfl rfl rfl, rfl, rfl, rfl, fun e he => absurd he List.not_mem_nil⟩

/-- A send changes nothing but what is under way. -/
theorem send_moves {h : IpAddr} {port : UInt16} {dst : SocketAddr} {d : Datagram}
    {r : Except NetError Unit} (he : w.send h port dst d = (w', r, ev)) :
    Moves w w' ev ∧ w'.hosts = w.hosts ∧ w'.channels = w.channels ∧ w'.groups = w.groups
      ∧ ∀ e ∈ ev, ∃ p, e = .sent p := by
  unfold send at he
  split at he
  · rename_i b _ _
    dsimp only at he
    split at he
    · cases he
      exact ⟨.of_eq rfl rfl rfl rfl, rfl, rfl, rfl, fun e he => absurd he List.not_mem_nil⟩
    · rename_i ts _
      have hm := @emit_moves h (source h b.bindAddr dst) d ts w
      rw [he] at hm
      exact hm
  · cases he
    exact ⟨.of_eq rfl rfl rfl rfl, rfl, rfl, rfl, fun e he => absurd he List.not_mem_nil⟩

/-- A packet that is handed over is dropped, or queued for the socket at its port. -/
theorem receiveFromNetwork_cases (host : Host) (p : Packet) :
    host.receiveFromNetwork p = (host, .discarded p)
      ∨ ∃ b, host.binds.get? p.dst.port = some b ∧ matchesBind b.bindAddr p.dst = true
        ∧ b.queue.length < host.capacity
        ∧ host.receiveFromNetwork p = ({ host with
            binds := host.binds.insert p.dst.port { b with queue := b.queue ++ [p.content] } },
            .accepted b.channel p) := by
  unfold Host.receiveFromNetwork
  split
  · exact .inl rfl
  · rename_i b hb
    split
    · exact .inl rfl
    · split
      · exact .inl rfl
      · rename_i hmatch
        split
        · exact .inl rfl
        · rename_i hfull
          exact .inr ⟨b, hb, by simpa using hmatch, by omega, rfl⟩

/-- A packet that is handed over is gone, whatever the host makes of it. -/
theorem receive_moves {h : IpAddr} {p : Packet} (he : w.receive h p = (w', ev)) :
    w'.flight = w.flight ∧ w'.loops = w.loops ∧ goneOf ev = [p] ∧ sentOf ev = [] := by
  unfold receive at he
  split at he
  · cases he
    exact ⟨rfl, rfl, rfl, rfl⟩
  · rename_i host _
    obtain ⟨rfl, rfl⟩ := Prod.mk.inj he
    obtain hd | ⟨b, -, -, -, ha⟩ := receiveFromNetwork_cases host p
    · rw [hd]
      exact ⟨rfl, rfl, rfl, rfl⟩
    · rw [ha]
      exact ⟨rfl, rfl, rfl, rfl⟩

/-- One packet leaves the bag. -/
theorem Moves.gone {p : Packet} (hb : w.bag.Perm (p :: w'.bag)) (hg : goneOf ev = [p])
    (hs : sentOf ev = []) : Moves w w' ev := by
  rw [Moves, hg, hs, List.append_nil]
  exact (List.perm_append_singleton p _).trans hb.symm

theorem bag_flight {i : Nat} {p : Packet} (hp : w.flight[i]? = some p) :
    w.bag.Perm (p :: ({ w with flight := w.flight.eraseIdx i } : World).bag) := by
  obtain ⟨hi, rfl⟩ := List.getElem?_eq_some_iff.mp hp
  exact (List.getElem_cons_eraseIdx_perm hi).symm.append_right _

theorem bag_loops {i : Nat} {h : IpAddr} {p : Packet} (hp : w.loops[i]? = some (h, p)) :
    w.bag.Perm (p :: ({ w with loops := w.loops.eraseIdx i } : World).bag) := by
  obtain ⟨hi, hget⟩ := List.getElem?_eq_some_iff.mp hp
  have hperm := ((List.getElem_cons_eraseIdx_perm hi).symm.map Prod.snd).append_left w.flight
  rw [hget] at hperm
  exact hperm.trans List.perm_middle

theorem bind_flight {h : IpAddr} {addr : SocketAddr} {r : Except NetError UInt16}
    (hb : w.bind h addr = .ok (w', r)) : w'.flight = w.flight ∧ w'.loops = w.loops
      ∧ w'.groups = w.groups := by
  unfold bind at hb
  split at hb
  · cases hb
  · split at hb
    · cases hb
    · cases hb
      exact ⟨rfl, rfl, rfl⟩
    · obtain ⟨⟨host, port⟩, -, hb⟩ := Net.bind_eq_ok.mp hb
      dsimp only at hb
      split at hb <;> cases hb <;> exact ⟨rfl, rfl, rfl⟩

/-- What TCP does to a host reaches UDP as another port of the next assignment, and other taken ports. -/
theorem step_assignTcp {a : IpAddr} (h : w.step (.assignTcp a) = .ok (w', ev)) :
    ev = [] ∧ ∃ next ports, w' = w.setTcp a next ports := by
  rw [step] at h
  unfold assignTcp at h
  split at h
  · cases h
  · split at h
    · cases h
    · cases h
      exact ⟨rfl, _, _, rfl⟩

/-- **One step** moves packets between the bag and the events. -/
theorem step_bag {op : Op} (h : w.step op = .ok (w', ev)) : Moves w w' ev := by
  cases op with
  | host a capacity first last =>
    cases h
    split <;> exact .of_eq rfl rfl rfl rfl
  | assignTcp a =>
    obtain ⟨rfl, next, ports, rfl⟩ := step_assignTcp h
    exact .of_eq rfl rfl rfl rfl
  | tcpPorts a ports =>
    rw [step] at h
    split at h <;> cases h <;> exact .of_eq rfl rfl rfl rfl
  | bind a addr =>
    obtain ⟨r, hr, hw⟩ : ∃ r, w.bind a addr = .ok r ∧ (r.1, []) = (w', ev) := by
      rw [step] at h
      cases hb : w.bind a addr with
      | error panic => rw [hb] at h; cases h
      | ok r => rw [hb] at h; exact ⟨r, rfl, by cases h; rfl⟩
    cases hw
    obtain ⟨hf, hl, -⟩ := bind_flight hr
    exact .of_eq hf hl rfl rfl
  | connect | setBroadcast | setMulticastLoop =>
    cases h
    exact .of_eq rfl rfl rfl rfl
  | joinMulticast a port group =>
    rw [step] at h
    split at h
    · dsimp only at h
      unfold joinMulticast at h
      split at h <;> cases h <;> exact .of_eq rfl rfl rfl rfl
    · cases h
      exact .of_eq rfl rfl rfl rfl
  | leaveMulticast a port group =>
    rw [step] at h
    split at h
    · dsimp only at h
      unfold leaveMulticast at h
      split at h
      · split at h <;> cases h <;> exact .of_eq rfl rfl rfl rfl
      · cases h
        exact .of_eq rfl rfl rfl rfl
    · cases h
      exact .of_eq rfl rfl rfl rfl
  | drop a port =>
    rw [step] at h
    split at h <;> cases h <;> exact .of_eq rfl rfl rfl rfl
  | send a port dst d =>
    cases h
    exact (send_moves rfl).1
  | deliver i =>
    rw [step] at h
    split at h
    · cases h
      exact .of_eq rfl rfl rfl rfl
    · rename_i p hp
      obtain ⟨hf, hl, hg, hs⟩ := receive_moves (Except.ok.inj h)
      refine .gone ((bag_flight hp).trans (.of_eq ?_)) hg hs
      rw [bag, bag, hf, hl]
  | lose i =>
    rw [step] at h
    split at h
    · cases h
      exact .of_eq rfl rfl rfl rfl
    · rename_i p hp
      cases h
      exact .gone (bag_flight hp) rfl rfl
  | deliverLoop i =>
    rw [step] at h
    split at h
    · cases h
      exact .of_eq rfl rfl rfl rfl
    · rename_i a p hp
      obtain ⟨hf, hl, hg, hs⟩ := receive_moves (Except.ok.inj h)
      refine .gone ((bag_loops hp).trans (.of_eq ?_)) hg hs
      rw [bag, bag, hf, hl]
  | cancelLoop i =>
    rw [step] at h
    split at h
    · cases h
      exact .of_eq rfl rfl rfl rfl
    · rename_i a p hp
      cases h
      exact .gone (bag_loops hp) rfl rfl
  | readable a port =>
    rw [step] at h
    split at h <;> cases h <;> exact .of_eq rfl rfl rfl rfl
  | tryRecvFrom a port len =>
    rw [step] at h
    split at h
    · cases h
      exact .of_eq rfl rfl rfl rfl
    · split at h <;> cases h <;> exact .of_eq rfl rfl rfl rfl

/-! ## 2. One socket changes -/

/-- A socket: what its channel, its bind and its host say about what it receives. -/
structure Sock where
  channel : Nat
  bindAddr : SocketAddr
  capacity : Nat
  queue : List (Datagram × SocketAddr)
  buffer : Option (Datagram × SocketAddr)

/-- What the socket has not received yet. -/
def Sock.pending (s : Sock) : List (Datagram × SocketAddr) := s.buffer.toList ++ s.queue

def sockOf (host : Host) (b : UdpBind) : Sock :=
  ⟨b.channel, b.bindAddr, host.capacity, b.queue, b.buffer⟩

def socket? (w : World) (h : IpAddr) (port : UInt16) : Option Sock :=
  (w.hosts.get? h).bind fun host => (host.binds.get? port).map (sockOf host)

/-- Nothing is accepted or received, unless it is on channel `c`. -/
def Silent (ev : List Event) (c : Option Nat) : Prop :=
  ∀ c', c ≠ some c' → acceptedOn c' ev = [] ∧ returnedOn c' ev = []

/-- What a step does to the sockets. -/
inductive Change (w w' : World) (ev : List Event) : Prop
  | same (hs : ∀ h port, w'.socket? h port = w.socket? h port) (hc : w'.channels = w.channels)
      (hev : Silent ev none)
  | bound (h : IpAddr) (port : UInt16) (s : Sock) (hnew : s.channel = w.channels)
      (hport : s.bindAddr.port = port) (hq : s.queue = []) (hp : s.pending = [])
      (hs : ∀ h' port', w'.socket? h' port'
        = if h' = h ∧ port' = port then some s else w.socket? h' port')
      (hc : w'.channels = w.channels + 1) (hev : Silent ev none)
  | closed (h : IpAddr) (port : UInt16)
      (hs : ∀ h' port', w'.socket? h' port'
        = if h' = h ∧ port' = port then none else w.socket? h' port')
      (hc : w'.channels = w.channels) (hev : ev = [.closed ⟨h, port⟩])
  /-- A datagram moves on, from the network to the socket, or from there to the receiver. -/
  | moved (h : IpAddr) (port : UInt16) (s s' : Sock) (hget : w.socket? h port = some s)
      (hch : s'.channel = s.channel) (haddr : s'.bindAddr = s.bindAddr)
      (hcap : s'.capacity = s.capacity)
      (hqueue : s'.queue.length ≤ s.queue.length ∨ s'.queue.length ≤ s.capacity)
      (hpend : returnedOn s.channel ev ++ s'.pending
        = s.pending ++ (acceptedOn s.channel ev).map Packet.content)
      (hto : ∀ p ∈ acceptedOn s.channel ev, p.dst.port = port ∧ matchesBind s.bindAddr p.dst)
      (hs : ∀ h' port', w'.socket? h' port'
        = if h' = h ∧ port' = port then some s' else w.socket? h' port')
      (hc : w'.channels = w.channels) (hev : Silent ev (some s.channel))

theorem silent_nil (c : Option Nat) : Silent [] c := fun _ _ => ⟨rfl, rfl⟩

theorem silent_of_sent (h : ∀ e ∈ ev, ∃ p, e = .sent p) : Silent ev none := by
  refine fun c _ => ⟨List.filterMap_eq_nil_iff.mpr fun e he => ?_,
    List.filterMap_eq_nil_iff.mpr fun e he => ?_⟩
  all_goals
    obtain ⟨p, rfl⟩ := h e he
    rfl

/-- A step that leaves the hosts alone changes no socket. -/
theorem Change.of_hosts (hh : w'.hosts = w.hosts) (hc : w'.channels = w.channels)
    (hev : Silent ev none) : Change w w' ev :=
  .same (fun h port => by rw [socket?, hh, socket?]) hc hev

/-- One host is replaced: the sockets of the others stay. -/
theorem socket?_insert {h : IpAddr} {host : Host} (hw : w'.hosts = w.hosts.insert h host)
    (h' : IpAddr) (port : UInt16) : w'.socket? h' port
      = if h' = h then (host.binds.get? port).map (sockOf host) else w.socket? h' port := by
  rw [socket?, hw, IndexMap.get?_insert]
  split
  · rfl
  · rfl

theorem socket?_modify {h : IpAddr} {f : Host → Host} (hw : w'.hosts = w.hosts.modify h f)
    (h' : IpAddr) (port : UInt16) : w'.socket? h' port
      = if h' = h then (w.hosts.get? h).bind fun host => ((f host).binds.get? port).map
          (sockOf (f host)) else w.socket? h' port := by
  rw [socket?, hw, IndexMap.get?_modify]
  split
  · rw [Option.bind_map]
    rfl
  · rfl

/-- One bind is changed. -/
theorem socket?_modifyBind (h : IpAddr) (port : UInt16) (f : UdpBind → UdpBind) (h' : IpAddr)
    (port' : UInt16) : (w.modifyBind h port f).socket? h' port'
      = if h' = h ∧ port' = port then (w.hosts.get? h).bind fun host =>
          (host.binds.get? port).map fun b => sockOf host (f b) else w.socket? h' port' := by
  rw [socket?_modify (w := w) (h := h) rfl]
  by_cases hh : h' = h
  · subst hh
    rw [if_pos rfl]
    by_cases hp : port' = port
    · subst hp
      rw [if_pos ⟨rfl, rfl⟩]
      congr 1
      funext host
      rw [IndexMap.get?_modify, if_pos rfl, Option.map_map]
      rfl
    · rw [if_neg fun e => hp e.2, socket?]
      congr 1
      funext host
      rw [IndexMap.get?_modify, if_neg hp]
      rfl
  · rw [if_neg hh, if_neg fun e => hh e.1]

/-- The choice of a port leaves the binds alone. -/
theorem choosePort_binds {host host' : Host} {port port' : UInt16}
    (h : host.choosePort port = .ok (host', port')) :
    host'.binds = host.binds ∧ host'.capacity = host.capacity := by
  unfold Host.choosePort at h
  split at h
  · split at h
    · cases h
    · rename_i r hr
      cases h
      obtain ⟨x, -, hx⟩ := Option.map_eq_some_iff.mp hr
      cases hx
      exact ⟨rfl, rfl⟩
  · cases h
    exact ⟨rfl, rfl⟩

/-- A socket is what its bind and the capacity of its host say.  The cursor of the ports may move
without it. -/
theorem socket?_of_binds {h : IpAddr} {host host' : Host} (hget : w.hosts.get? h = some host)
    (hb : host'.binds = host.binds) (hc : host'.capacity = host.capacity) (port : UInt16) :
    (host'.binds.get? port).map (sockOf host') = w.socket? h port := by
  rw [socket?, hget, hb]
  show _ = (host.binds.get? port).map (sockOf host)
  congr 1
  funext b
  rw [sockOf, sockOf, hc]

/-- **A bind** is refused, or makes one socket with a new channel.  The new channel is what keeps a
socket apart from an earlier one at the same port. -/
theorem bind_change {h : IpAddr} {addr : SocketAddr} {r : Except NetError UInt16}
    (hb : w.bind h addr = .ok (w', r)) : Change w w' [] := by
  unfold bind at hb
  split at hb
  · cases hb
  · rename_i host hget
    split at hb
    · cases hb
    · cases hb
      exact .of_hosts rfl rfl (silent_nil _)
    · obtain ⟨⟨host₁, port⟩, hchoose, hb⟩ := Net.bind_eq_ok.mp hb
      obtain ⟨hbinds, hcap⟩ := choosePort_binds hchoose
      dsimp only at hb
      unfold Host.bind at hb
      split at hb
      · rename_i hbind
        cases hb
        refine .same (fun h' port' => ?_) rfl (silent_nil _)
        rw [socket?_insert (w := w) rfl]
        split
        · rename_i e
          rw [e, socket?_of_binds hget hbinds hcap]
        · rfl
      · rename_i host₂ hbind
        cases hb
        split at hbind
        · cases hbind
        · cases hbind
          refine .bound h port ⟨w.channels, ⟨addr.ip, port⟩, host₁.capacity, [], none⟩ rfl rfl rfl rfl
            (fun h' port' => ?_) rfl (silent_nil _)
          rw [socket?_insert (w := w) rfl]
          by_cases hh : h' = h
          · subst hh
            rw [if_pos rfl, IndexMap.get?_insert]
            by_cases hp : port' = port
            · rw [if_pos hp, if_pos ⟨rfl, hp⟩]
              rfl
            · rw [if_neg hp, if_neg fun e => hp e.2, ← socket?_of_binds hget hbinds hcap]
              rfl
          · rw [if_neg hh, if_neg fun e => hh e.1]

/-- A socket that is dropped is gone with its queue; no other socket is at its port. -/
theorem drop_change (h : IpAddr) (port : UInt16) : Change w (w.drop h port).1 (w.drop h port).2 := by
  refine .closed h port (fun h' port' => ?_) rfl rfl
  rw [socket?_modify (w := w) (h := h) rfl]
  by_cases hh : h' = h
  · subst hh
    rw [if_pos rfl]
    by_cases hp : port' = port
    · rw [if_pos ⟨rfl, hp⟩, hp]
      cases w.hosts.get? h' with
      | none => rfl
      | some host =>
        show ((host.binds.swapRemove port).get? port).map _ = none
        rw [IndexMap.get?_swapRemove, if_pos rfl]
        rfl
    · rw [if_neg fun e => hp e.2, socket?]
      congr 1
      funext host
      rw [IndexMap.get?_swapRemove, if_neg hp]
      rfl
  · rw [if_neg hh, if_neg fun e => hh e.1]

/-- The flags and the target of a socket do not count. -/
theorem flags_change (h : IpAddr) (port : UInt16) (f : UdpBind → UdpBind)
    (hf : ∀ host b, sockOf host (f b) = sockOf host b) : Change w (w.modifyBind h port f) [] := by
  refine .same (fun h' port' => ?_) rfl (silent_nil _)
  rw [socket?_modifyBind]
  split
  · rename_i e
    rw [e.1, e.2, socket?]
    simp only [hf]
  · rfl

/-- **A packet that arrives** is put at the end of one queue, which had room for it, or changes
nothing. -/
theorem receive_change (w₁ : World) {h : IpAddr} {p : Packet} (hw : w₁.hosts = w.hosts)
    (hc : w₁.channels = w.channels) (he : w₁.receive h p = (w', ev)) : Change w w' ev := by
  unfold receive at he
  split at he
  · cases he
    exact .of_hosts hw hc fun c _ => ⟨rfl, rfl⟩
  · rename_i host hget
    rw [hw] at hget
    obtain ⟨rfl, rfl⟩ := Prod.mk.inj he
    have hsock : ∀ h' port', ({ w₁ with
        hosts := w₁.hosts.modify h fun _ => (host.receiveFromNetwork p).1 } : World).socket? h' port'
        = if h' = h then ((host.receiveFromNetwork p).1.binds.get? port').map
            (sockOf (host.receiveFromNetwork p).1) else w.socket? h' port' := by
      intro h' port'
      rw [socket?_modify (w := w₁) (h := h) rfl, hw, hget, socket?, hw]
      rfl
    obtain hd | ⟨b, hb, hmatch, hroom, ha⟩ := receiveFromNetwork_cases host p
    · refine .same (fun h' port' => ?_) hc ?_
      · rw [hsock, hd]
        split
        · rename_i e
          rw [e, socket?, hget]
          rfl
        · rfl
      · rw [hd]
        exact fun c _ => ⟨rfl, rfl⟩
    · have hev : acceptedOn b.channel [(host.receiveFromNetwork p).2] = [p] := by
        rw [ha]
        exact acceptedOn_self b.channel p
      have hret : returnedOn b.channel [(host.receiveFromNetwork p).2] = [] := by
        rw [ha]
        rfl
      refine .moved h p.dst.port (sockOf host b)
        (sockOf host { b with queue := b.queue ++ [p.content] }) ?_ rfl rfl rfl (.inr ?_) ?_ ?_
        (fun h' port' => ?_) hc ?_
      · rw [socket?, hget]
        show (host.binds.get? p.dst.port).map _ = _
        rw [hb]
        rfl
      · show (b.queue ++ [p.content]).length ≤ host.capacity
        rw [List.length_append]
        exact hroom
      · show returnedOn b.channel _ ++ (b.buffer.toList ++ (b.queue ++ [p.content]))
          = (b.buffer.toList ++ b.queue) ++ (acceptedOn b.channel _).map Packet.content
        rw [hev, hret, List.append_assoc]
        rfl
      · intro q hq
        change q ∈ acceptedOn b.channel _ at hq
        rw [hev, List.mem_singleton] at hq
        subst hq
        exact ⟨rfl, hmatch⟩
      · rw [hsock, ha]
        by_cases hh : h' = h
        · rw [if_pos hh]
          by_cases hp : port' = p.dst.port
          · rw [if_pos ⟨hh, hp⟩, IndexMap.get?_insert, if_pos hp]
            rfl
          · rw [if_neg fun e => hp e.2, IndexMap.get?_insert, if_neg hp, hh, socket?, hget]
            rfl
        · rw [if_neg hh, if_neg fun e => hh e.1]
      · intro c hne
        rw [ha]
        exact ⟨List.filterMap_cons_none (if_neg fun e => hne (congrArg some e)), rfl⟩

/-- A socket that is read: what it returns, it held. -/
theorem read_change {h : IpAddr} {port : UInt16} {b b' : UdpBind} (hb : w.bind? h port = some b)
    (hch : b'.channel = b.channel) (haddr : b'.bindAddr = b.bindAddr)
    (hlen : b'.queue.length ≤ b.queue.length) (hacc : ∀ c, acceptedOn c ev = [])
    (hret : returnedOn b.channel ev ++ (b'.buffer.toList ++ b'.queue) = b.buffer.toList ++ b.queue)
    (hev : Silent ev (some b.channel)) : Change w (w.modifyBind h port fun _ => b') ev := by
  obtain ⟨host, hget, hbind⟩ := Option.bind_eq_some_iff.mp hb
  refine .moved h port (sockOf host b) (sockOf host b') ?_ hch haddr rfl (.inl hlen) ?_ ?_
    (fun h' port' => ?_) rfl hev
  · rw [socket?, hget]
    show (host.binds.get? port).map _ = _
    rw [hbind]
    rfl
  · show returnedOn b.channel ev ++ (b'.buffer.toList ++ b'.queue)
      = (b.buffer.toList ++ b.queue) ++ (acceptedOn b.channel ev).map Packet.content
    rw [hret, hacc, List.map_nil, List.append_nil]
  · intro q hq
    change q ∈ acceptedOn b.channel ev at hq
    rw [hacc] at hq
    exact absurd hq List.not_mem_nil
  · rw [socket?_modifyBind]
    split
    · rw [hget]
      show (host.binds.get? port).map _ = _
      rw [hbind]
      rfl
    · rfl

/-- `readable` moves the head of the queue to the buffer, and keeps what the socket holds. -/
theorem readable_held {b b' : UdpBind} (h : b.readable = some b') :
    b'.channel = b.channel ∧ b'.bindAddr = b.bindAddr ∧ b'.queue.length ≤ b.queue.length
      ∧ b'.buffer.toList ++ b'.queue = b.buffer.toList ++ b.queue := by
  unfold UdpBind.readable at h
  split at h
  · cases h
    exact ⟨rfl, rfl, Nat.le_refl _, rfl⟩
  · cases h
  · rename_i d queue hbuf hq
    cases h
    rw [hbuf, hq]
    exact ⟨rfl, rfl, Nat.le_succ _, rfl⟩

/-- A receive returns the first of what the socket holds: the buffer if there is something in it, or
else the head of the queue. -/
theorem tryRecvFrom_held {b b' : UdpBind} {len limit : Nat} {d : Datagram} {origin : SocketAddr}
    (h : b.tryRecvFrom len = .ok (b', d, origin, limit)) :
    b'.channel = b.channel ∧ b'.bindAddr = b.bindAddr ∧ b'.queue.length ≤ b.queue.length
      ∧ (d, origin) :: (b'.buffer.toList ++ b'.queue) = b.buffer.toList ++ b.queue := by
  unfold UdpBind.tryRecvFrom at h
  split at h
  · rename_i hbuf
    cases h
    rw [hbuf]
    exact ⟨rfl, rfl, Nat.le_refl _, rfl⟩
  · rename_i hbuf hq
    cases h
    rw [hbuf, hq]
    exact ⟨rfl, rfl, Nat.le_succ _, rfl⟩
  · cases h

/-- What TCP does to a host is not seen by its UDP sockets: it only takes ports away from those to
come. -/
theorem setTcp_change (a : IpAddr) (next : UInt16) (ports : List UInt16) :
    Change w (w.setTcp a next ports) [] := by
  refine .same (fun h' port => ?_) rfl (silent_nil _)
  rw [socket?_modify (w := w) rfl]
  split
  · rename_i e
    rw [e, socket?]
    rfl
  · rfl

/-- **One step** changes at most one socket. -/
theorem step_change {op : Op} (h : w.step op = .ok (w', ev)) : Change w w' ev := by
  cases op with
  | host a capacity first last =>
    cases h
    split
    · exact .of_hosts rfl rfl (silent_nil _)
    · rename_i hno
      have hnone : w.hosts.get? a = none := IndexMap.contains_eq_false.mp (Bool.eq_false_iff.mpr hno)
      refine .same (fun h' port => ?_) rfl (silent_nil _)
      rw [socket?_insert (w := w) rfl]
      split
      · rename_i e
        rw [e, socket?, hnone]
        rfl
      · rfl
  | assignTcp a =>
    obtain ⟨rfl, next, ports, rfl⟩ := step_assignTcp h
    exact setTcp_change a next ports
  | tcpPorts a ports =>
    rw [step] at h
    split at h <;> cases h
    · exact .of_hosts rfl rfl (silent_nil _)
    · exact setTcp_change a _ ports
  | bind a addr =>
    cases hb : w.bind a addr with
    | error panic =>
      rw [step, hb] at h
      cases h
    | ok r =>
      rw [step, hb] at h
      cases h
      exact bind_change hb
  | connect a port target =>
    cases h
    exact flags_change a port _ fun host b => rfl
  | setBroadcast a port on =>
    cases h
    refine flags_change a port _ fun host b => ?_
    split <;> rfl
  | setMulticastLoop a port v4 on =>
    cases h
    refine flags_change a port _ fun host b => ?_
    split <;> rfl
  | joinMulticast a port group =>
    rw [step] at h
    split at h
    · dsimp only at h
      unfold joinMulticast at h
      split at h <;> cases h <;> exact .of_hosts rfl rfl fun c _ => ⟨rfl, rfl⟩
    · cases h
      exact .of_hosts rfl rfl (silent_nil _)
  | leaveMulticast a port group =>
    rw [step] at h
    split at h
    · dsimp only at h
      unfold leaveMulticast at h
      split at h
      · split at h <;> cases h <;> exact .of_hosts rfl rfl fun c _ => ⟨rfl, rfl⟩
      · cases h
        exact .of_hosts rfl rfl (silent_nil _)
    · cases h
      exact .of_hosts rfl rfl (silent_nil _)
  | drop a port =>
    rw [step] at h
    split at h
    · cases h
      exact drop_change a port
    · cases h
      exact .of_hosts rfl rfl (silent_nil _)
  | send a port dst d =>
    obtain ⟨-, hh, hc, -, hsent⟩ := send_moves (rfl : w.send a port dst d = _)
    cases h
    exact .of_hosts hh hc (silent_of_sent hsent)
  | deliver i =>
    rw [step] at h
    split at h
    · cases h
      exact .of_hosts rfl rfl (silent_nil _)
    · exact receive_change { w with flight := w.flight.eraseIdx i } rfl rfl
        (Except.ok.inj h)
  | lose i =>
    rw [step] at h
    split at h <;> cases h <;> exact .of_hosts rfl rfl fun c _ => ⟨rfl, rfl⟩
  | deliverLoop i =>
    rw [step] at h
    split at h
    · cases h
      exact .of_hosts rfl rfl (silent_nil _)
    · exact receive_change { w with loops := w.loops.eraseIdx i } rfl rfl
        (Except.ok.inj h)
  | cancelLoop i =>
    rw [step] at h
    split at h <;> cases h <;> exact .of_hosts rfl rfl fun c _ => ⟨rfl, rfl⟩
  | readable a port =>
    rw [step] at h
    split at h
    · cases h
      exact .of_hosts rfl rfl (silent_nil _)
    · rename_i b' hr
      cases h
      obtain ⟨b, hb, hr⟩ := Option.bind_eq_some_iff.mp hr
      obtain ⟨hch, haddr, hlen, hheld⟩ := readable_held hr
      exact read_change hb hch haddr hlen (fun _ => rfl) hheld (silent_nil _)
  | tryRecvFrom a port len =>
    rw [step] at h
    split at h
    · cases h
      exact .of_hosts rfl rfl (silent_nil _)
    · rename_i b hb
      split at h
      · cases h
        exact .of_hosts rfl rfl (silent_nil _)
      · rename_i b' d origin limit hr
        cases h
        obtain ⟨hch, haddr, hlen, hheld⟩ := tryRecvFrom_held hr
        refine read_change hb hch haddr hlen (fun _ => rfl) ?_ fun c hne => ⟨rfl, ?_⟩
        · rw [returnedOn_self]
          exact hheld
        · exact List.filterMap_cons_none (if_neg fun e => hne (congrArg some e))

end World

end Turmoil.Udp
