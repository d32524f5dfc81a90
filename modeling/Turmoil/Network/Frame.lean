/-
# What the kernel leaves alone

The datagrams of a kernel are those in the queues of its sockets and those that wait to go out.  Nearly
every function of the kernel is about TCP and creates none: `Frame` says so, and that the bindings stay
what they should be.  A frame is reflexive and transitive, so a function is framed step by step.

`Bound` is the invariant that a frame carries along.  It is needed because a datagram is known by the
port it was sent to, and a socket in a queue is known by its binding: a socket that the table lists
under a port is bound to that port, and a socket that is not bound has an empty queue.  Identifiers are
never used twice, so that a new socket finds no binding of an old one.

The lemmas of section 1 are one for each way in which the kernel changes its sockets.  The functions of
the kernel are composed of these changes (`Network.Calls`), and none of them is unfolded again.
-/
import Turmoil.Net.Calls
import Turmoil.Net.Table
import Mathlib.Data.List.Flatten

namespace Turmoil.Network

open Turmoil.Net
open Turmoil.Net.Kernel

/-! ## 1. Datagrams -/

/-- A datagram that has arrived: the port it was sent to, and where it comes from. -/
structure Datagram where
  port : UInt16
  sender : SocketAddr
  payload : List UInt8
  deriving DecidableEq, Repr

/-- The datagrams in the queue of a socket. -/
def queuedOn (st : Socket) : List Datagram :=
  match st.bound with
  | some key => st.recvQueue.map fun r => ⟨key.localPort, r.1, r.2⟩
  | none => []

def queued (k : Kernel) : List Datagram := k.sockets.sockets.entries.flatMap fun e => queuedOn e.2

/-- The bindings of a kernel are those of its sockets, to addresses of the host; and what is not bound
has received nothing. -/
structure Bound (k : Kernel) : Prop where
  listed : ∀ {key fd st}, fd ∈ k.sockets.findByBind key → k.lookup fd = some st → st.bound = some key
  unbound : ∀ {fd st}, k.lookup fd = some st → st.bound = none → st.recvQueue = []
  owned : ∀ {fd st key}, k.lookup fd = some st → st.bound = some key →
    key.localAddr.isUnspecified = true ∨ k.isLocal key.localAddr = true
  fresh : ∀ {fd st}, k.lookup fd = some st → fd < k.sockets.nextId
  indexed : ∀ {key fd}, fd ∈ k.sockets.findByBind key → fd < k.sockets.nextId

/-- Nothing happens to datagrams, unless those of a socket are dropped with it. -/
structure Frame (k k' : Kernel) : Prop where
  addresses : k'.addresses = k.addresses
  outbound : ∃ pkts, k'.outbound = k.outbound ++ pkts ∧ ∀ p ∈ pkts, ∃ s, p.payload = .tcp s
  bound : Bound k'
  queued : (queued k').Subperm (queued k)

section
variable {k k' k'' : Kernel} {fd : Fd}

theorem Frame.refl (hb : Bound k) : Frame k k :=
  ⟨rfl, ⟨[], (List.append_nil _).symm, fun _ h => absurd h List.not_mem_nil⟩, hb, .refl _⟩

/-- Frames compose.  The segments of the second step come after those of the first, and a datagram that
is still queued after both was queued after the first. -/
theorem Frame.trans (h : Frame k k') (h' : Frame k' k'') : Frame k k'' := by
  obtain ⟨pkts, hout, htcp⟩ := h.outbound
  obtain ⟨pkts', hout', htcp'⟩ := h'.outbound
  refine ⟨h'.addresses.trans h.addresses, ⟨pkts ++ pkts', ?_, fun p hp => ?_⟩, h'.bound,
    h'.queued.trans h.queued⟩
  · rw [hout', hout, List.append_assoc]
  · exact (List.mem_append.mp hp).elim (htcp p) (htcp' p)

/-- The sockets and their bindings are as they were. -/
theorem Frame.of_eq (hb : Bound k) (ha : k'.addresses = k.addresses)
    (hout : ∃ pkts, k'.outbound = k.outbound ++ pkts ∧ ∀ p ∈ pkts, ∃ s, p.payload = .tcp s)
    (hs : k'.sockets.sockets = k.sockets.sockets) (hbind : k'.sockets.bindings = k.sockets.bindings)
    (hid : k'.sockets.nextId = k.sockets.nextId) : Frame k k' := by
  have hl : ∀ fd, k'.lookup fd = k.lookup fd := fun fd => by
    rw [lookup, SocketTable.get, hs]
    rfl
  have hf : ∀ key, k'.sockets.findByBind key = k.sockets.findByBind key := fun key => by
    rw [SocketTable.findByBind, hbind]
    rfl
  refine ⟨ha, hout, ⟨?_, ?_, ?_, ?_, ?_⟩, ?_⟩
  · intro key fd st hfd hst
    exact hb.listed (hf key ▸ hfd) (hl fd ▸ hst)
  · intro fd st hst
    exact hb.unbound (hl fd ▸ hst)
  · intro fd st key hst hkey
    rw [isLocal, ha]
    exact hb.owned (hl fd ▸ hst) hkey
  · intro fd st hst
    rw [hid]
    exact hb.fresh (hl fd ▸ hst)
  · intro key fd hfd
    rw [hid]
    exact hb.indexed (hf key ▸ hfd)
  · rw [Network.queued, hs]
    exact .refl _

/-- A segment that goes out is TCP, and touches no socket. -/
theorem Frame.emit (hb : Bound k) (src dst : SocketAddr) (seg : TcpSegment) :
    Frame k (k.emit src dst seg) :=
  .of_eq hb rfl ⟨[_], rfl, fun p hp => ⟨seg, by rw [List.mem_singleton.mp hp]⟩⟩ rfl rfl rfl

theorem Frame.emitAll (hb : Bound k) (src dst : SocketAddr) (segs : List TcpSegment) :
    Frame k (k.emitAll src dst segs) := by
  rw [emitAll_eq]
  refine .of_eq hb rfl ⟨_, rfl, fun p hp => ?_⟩ rfl rfl rfl
  obtain ⟨s, -, rfl⟩ := List.mem_map.mp hp
  exact ⟨s, rfl⟩

/-- A socket changes, but for its binding and its queue. -/
theorem Frame.modify (hb : Bound k) (fd : Fd) {f : Socket → Socket}
    (hf : ∀ st, k.lookup fd = some st → (f st).bound = st.bound ∧ (f st).recvQueue = st.recvQueue) :
    Frame k (k.modifySocket fd f) := by
  have hl : ∀ {g st'}, (k.modifySocket fd f).lookup g = some st' →
      ∃ st, k.lookup g = some st ∧ st'.bound = st.bound ∧ st'.recvQueue = st.recvQueue := by
    intro g st' h
    rw [lookup_modifySocket] at h
    split at h
    · rename_i hg
      subst hg
      obtain ⟨st, hst, rfl⟩ := Option.map_eq_some_iff.mp h
      exact ⟨st, hst, hf st hst⟩
    · exact ⟨st', h, rfl, rfl⟩
  refine ⟨rfl, ⟨[], (List.append_nil _).symm, fun _ h => absurd h List.not_mem_nil⟩,
    ⟨?_, ?_, ?_, ?_, hb.indexed⟩, ?_⟩
  · intro key g st' hg h
    obtain ⟨st, hst, hbound, -⟩ := hl h
    rw [hbound]
    exact hb.listed hg hst
  · intro g st' h hnone
    obtain ⟨st, hst, hbound, hqueue⟩ := hl h
    rw [hqueue]
    exact hb.unbound hst (hbound ▸ hnone)
  · intro g st' key h hkey
    obtain ⟨st, hst, hbound, -⟩ := hl h
    exact hb.owned hst (hbound ▸ hkey)
  · intro g st' h
    obtain ⟨st, hst, -⟩ := hl h
    exact hb.fresh hst
  · cases hget : k.lookup fd with
    | none =>
      rw [Network.queued, Kernel.modifySocket, SocketTable.modify]
      dsimp only
      rw [IndexMap.modify_self fun v hv => by rw [lookup, SocketTable.get, hv] at hget; cases hget]
      exact .refl _
    | some st =>
      obtain ⟨l₁, l₂, hentries, hmodify⟩ := IndexMap.modify_split hget
      obtain ⟨hbound, hqueue⟩ := hf st hget
      have hon : queuedOn (f st) = queuedOn st := by rw [queuedOn, queuedOn, hbound, hqueue]
      refine List.Perm.subperm (.of_eq ?_)
      show ((k.sockets.sockets.modify fd f).entries).flatMap _ = k.sockets.sockets.entries.flatMap _
      rw [hmodify, hentries, List.flatMap_append, List.flatMap_append, List.flatMap_cons,
        List.flatMap_cons, hon]

theorem Frame.setTcb (hb : Bound k) (fd : Fd) (tcb : Tcb) : Frame k (k.setTcb fd tcb) :=
  .modify hb fd fun _ _ => ⟨rfl, rfl⟩

/-- A socket is removed with its bindings.  This is the one way in which a queued datagram disappears. -/
theorem Frame.remove (hb : Bound k) (fd : Fd) : Frame k (k.removeSocket fd) := by
  have hl : ∀ {g st}, (k.removeSocket fd).lookup g = some st → k.lookup g = some st := by
    intro g st h
    rw [lookup_removeSocket] at h
    split at h
    · cases h
    · exact h
  have hf : ∀ {key g}, g ∈ (k.removeSocket fd).sockets.findByBind key →
      g ∈ k.sockets.findByBind key := by
    intro key g h
    rw [Kernel.removeSocket, SocketTable.findByBind_remove] at h
    exact (List.mem_filter.mp h).1
  refine ⟨rfl, ⟨[], (List.append_nil _).symm, fun _ h => absurd h List.not_mem_nil⟩,
    ⟨fun hg h => hb.listed (hf hg) (hl h), fun h => hb.unbound (hl h), fun h => hb.owned (hl h),
      fun h => hb.fresh (hl h), fun hg => hb.indexed (hf hg)⟩, ?_⟩
  refine List.Sublist.subperm ?_
  exact (List.filter_sublist (l := k.sockets.sockets.entries)).flatMap _

/-- A new socket, which is not bound. -/
theorem Frame.open (hb : Bound k) (domain : Domain) (ty : SockType) :
    Frame k (k.openSocket domain ty).1 := by
  have hfresh : k.sockets.sockets.contains k.sockets.nextId = false := by
    refine IndexMap.contains_eq_false.mpr ?_
    cases hget : k.sockets.sockets.get? k.sockets.nextId with
    | none => rfl
    | some st => exact absurd (hb.fresh hget) (Nat.lt_irrefl _)
  have hl : ∀ {g st}, (k.openSocket domain ty).1.lookup g = some st →
      (g = k.sockets.nextId ∧ st = Socket.new domain ty) ∨ k.lookup g = some st := by
    intro g st h
    change (k.sockets.sockets.insert _ _).get? g = some st at h
    rw [IndexMap.get?_insert] at h
    split at h
    · rename_i hg
      cases h
      exact .inl ⟨hg, rfl⟩
    · exact .inr h
  refine ⟨rfl, ⟨[], (List.append_nil _).symm, fun _ h => absurd h List.not_mem_nil⟩,
    ⟨?_, ?_, ?_, ?_, ?_⟩, ?_⟩
  · intro key g st hg h
    rcases hl h with ⟨rfl, -⟩ | h
    · exact absurd (hb.indexed hg) (Nat.lt_irrefl _)
    · exact hb.listed hg h
  · intro g st h
    rcases hl h with ⟨-, rfl⟩ | h
    · exact fun _ => rfl
    · exact hb.unbound h
  · intro g st key h hkey
    rcases hl h with ⟨-, rfl⟩ | h
    · cases hkey
    · exact hb.owned h hkey
  · intro g st h
    rcases hl h with ⟨rfl, -⟩ | h
    · exact Nat.lt_succ_self _
    · exact Nat.lt_succ_of_lt (hb.fresh h)
  · exact fun hg => Nat.lt_succ_of_lt (hb.indexed hg)
  · refine List.Perm.subperm (.of_eq ?_)
    show (k.sockets.sockets.insert _ _).entries.flatMap _ = _
    rw [IndexMap.insert_entries_of_not_contains hfresh, List.flatMap_append]
    exact List.append_nil _

/-- A socket is bound that was not. -/
theorem Frame.bind (hb : Bound k) {st : Socket} {key : BindKey} {f : Socket → Socket}
    (hst : k.lookup fd = some st) (hnone : st.bound = none) (hkey : (f st).bound = some key)
    (hqueue : (f st).recvQueue = st.recvQueue)
    (haddr : key.localAddr.isUnspecified = true ∨ k.isLocal key.localAddr = true)
    (ha : k'.addresses = k.addresses) (hout : k'.outbound = k.outbound)
    (hs : k'.sockets.sockets = k.sockets.sockets.modify fd f)
    (hbind : k'.sockets.bindings = (k.sockets.insertBinding key fd).bindings)
    (hid : k'.sockets.nextId = k.sockets.nextId) : Frame k k' := by
  have hl : ∀ {g st'}, k'.lookup g = some st' → (g = fd ∧ st' = f st)
      ∨ (g ≠ fd ∧ k.lookup g = some st') := by
    intro g st' h
    rw [lookup, SocketTable.get, hs, IndexMap.get?_modify] at h
    split at h
    · rename_i hg
      rw [show k.sockets.sockets.get? fd = some st from hst] at h
      cases h
      exact .inl ⟨hg, rfl⟩
    · rename_i hg
      exact .inr ⟨hg, h⟩
  have hf : ∀ {key' g}, g ∈ k'.sockets.findByBind key' → g ∈ k.sockets.findByBind key'
      ∨ (key' = key ∧ g = fd) := by
    intro key' g h
    have he : k'.sockets.findByBind key' = (k.sockets.insertBinding key fd).findByBind key' := by
      rw [SocketTable.findByBind, hbind]
      rfl
    rw [he, SocketTable.findByBind_insertBinding] at h
    split at h
    · rename_i hk
      rcases List.mem_append.mp h with h | h
      · exact .inl (hk ▸ h)
      · exact .inr ⟨hk, List.mem_singleton.mp h⟩
    · exact .inl h
  refine ⟨ha, ⟨[], by rw [hout, List.append_nil], fun _ h => absurd h List.not_mem_nil⟩,
    ⟨?_, ?_, ?_, ?_, ?_⟩, ?_⟩
  · intro key' g st' hg h
    rcases hl h with ⟨rfl, rfl⟩ | ⟨hne, h⟩
    · rcases hf hg with hg | ⟨rfl, -⟩
      · have := hb.listed hg hst
        rw [hnone] at this
        cases this
      · exact hkey
    · rcases hf hg with hg | ⟨-, hg⟩
      · exact hb.listed hg h
      · exact absurd hg hne
  · intro g st' h hno
    rcases hl h with ⟨rfl, rfl⟩ | ⟨-, h⟩
    · rw [hkey] at hno
      cases hno
    · exact hb.unbound h hno
  · intro g st' key' h hkey'
    rw [isLocal, ha]
    rcases hl h with ⟨rfl, rfl⟩ | ⟨-, h⟩
    · cases hkey.symm.trans hkey'
      exact haddr
    · exact hb.owned h hkey'
  · intro g st' h
    rw [hid]
    rcases hl h with ⟨rfl, -⟩ | ⟨-, h⟩
    · exact hb.fresh hst
    · exact hb.fresh h
  · intro key' g hg
    rw [hid]
    rcases hf hg with hg | ⟨-, rfl⟩
    · exact hb.indexed hg
    · exact hb.fresh hst
  · obtain ⟨l₁, l₂, hentries, hmodify⟩ := IndexMap.modify_split
      (show k.sockets.sockets.get? fd = some st from hst)
    have hempty := hb.unbound hst hnone
    refine List.Perm.subperm (.of_eq ?_)
    have hon : queuedOn (f st) = queuedOn st := by
      rw [queuedOn, hkey, queuedOn, hnone, hqueue, hempty]
      rfl
    rw [Network.queued, Network.queued, hs, hmodify, hentries, List.flatMap_append,
      List.flatMap_append, List.flatMap_cons, List.flatMap_cons, hon]

/-- Only the ports move on. -/
theorem Frame.ports (hb : Bound k) {domain : Domain} {ty : SockType} {sockets : SocketTable}
    {port : Option UInt16} (h : k.sockets.allocatePort domain ty = .ok (sockets, port)) :
    Frame k { k with sockets := sockets } := by
  obtain ⟨⟨ports, p⟩, -, h⟩ := bind_eq_ok.mp h
  cases h
  exact .of_eq hb rfl ⟨[], (List.append_nil _).symm, fun _ h => absurd h List.not_mem_nil⟩ rfl rfl rfl

end

end Turmoil.Network
