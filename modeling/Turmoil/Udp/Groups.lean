/-
# Multicast and broadcast

The members of a group are the sockets that joined it and have neither left it nor been dropped since.
Every member is a socket that is there, so a datagram to the group cannot fail for want of a link: it
goes to each member once, to the own host only where the member there wants it.  A broadcast reaches
every host that has the port.

The tables of the source are keyed by the address of the group with the port of the member, and a group
is removed with its last member.  Section 1 says what the four functions on these tables do to
memberships; after it the tables are not looked into any more.  Section 2 compares the tables with what
happened: the trace says who has joined, and the invariant `Members` says that the tables say the same.

Section 3 is about one send in a state that was reached.  It goes through the copies in turn, and the
invariant excludes the only way in which a copy could stop the ones after it.
-/
import Turmoil.Udp.Channels

namespace Turmoil.Udp

open Turmoil.Net (IpAddr SocketAddr NetError)

/-! ## 1. The tables of the groups -/

namespace MulticastGroups

variable (g : MulticastGroups) (group : IpAddr) (key m m' : SocketAddr)

def Member : Prop := ∃ members, g.groups.get? key = some members ∧ members.contains m = true

/-- No group is kept without members. -/
def Inhabited : Prop := ∀ key members, g.groups.get? key = some members → ∃ m, members.contains m = true

variable {g group key m m'}

/-- A datagram to the group goes to its members. -/
theorem mem_destinationAddresses : m ∈ g.destinationAddresses key ↔ g.Member key m := by
  unfold destinationAddresses Member
  cases g.groups.get? key with
  | none => simp
  | some members =>
    show m ∈ members.keys ↔ _
    rw [IndexMap.mem_keys, ← IndexMap.contains_iff]
    simp

/-- The members of a group are a set, so no one gets two copies. -/
theorem nodup_destinationAddresses : (g.destinationAddresses key).Nodup := by
  unfold destinationAddresses
  cases g.groups.get? key with
  | none => exact List.nodup_nil
  | some members => exact members.nodup

/-- To join twice is to join once. -/
theorem member_join : (g.join group m).Member key m'
    ↔ g.Member key m' ∨ (key = ⟨group, m.port⟩ ∧ m' = m) := by
  unfold Member join
  by_cases hk : key = ⟨group, m.port⟩
  · subst hk
    dsimp only
    split
    · rename_i hc
      obtain ⟨members, hget⟩ := IndexMap.contains_iff.mp hc
      rw [IndexMap.get?_modify, if_pos rfl, hget]
      simp [or_comm]
    · rename_i hc
      have hnone := IndexMap.contains_eq_false.mp (Bool.eq_false_iff.mpr hc)
      rw [IndexMap.get?_insert, if_pos rfl, hnone]
      simp
  · dsimp only
    split
    · rw [IndexMap.get?_modify, if_neg hk]
      simp [hk]
    · rw [IndexMap.get?_insert, if_neg hk]
      simp [hk]

/-- Without members, a group is gone. -/
theorem isEmpty_keys {members : IndexSet SocketAddr} :
    members.keys.isEmpty = false ↔ ∃ m, members.contains m = true := by
  simp only [IndexMap.contains_iff_mem_keys]
  cases members.keys with
  | nil => simp
  | cons m _ => exact iff_of_true rfl ⟨m, List.mem_cons_self⟩

/-- What is left of a group without `m`. -/
def trim (m : SocketAddr) (o : Option (IndexSet SocketAddr)) : Option (IndexSet SocketAddr) :=
  (o.map fun members => members.swapRemove m).filter fun members => !members.keys.isEmpty

theorem trim_eq_some {o : Option (IndexSet SocketAddr)} {members' : IndexSet SocketAddr} :
    trim m o = some members' ↔ ∃ members, o = some members ∧ members.swapRemove m = members'
      ∧ ∃ m', members'.contains m' = true := by
  rw [trim, Option.filter_eq_some_iff, Option.map_eq_some_iff, Bool.not_eq_true', isEmpty_keys]
  constructor
  · rintro ⟨⟨members, ho, hs⟩, hm⟩
    exact ⟨members, ho, hs, hm⟩
  · rintro ⟨members, ho, hs, hm⟩
    exact ⟨⟨members, ho, hs⟩, hm⟩

/-- **One member less.**  The group may go with it, and then nobody was left in it: so the others are
members exactly if they were. -/
theorem contains_trim {o : Option (IndexSet SocketAddr)} :
    (∃ members, trim m o = some members ∧ members.contains m' = true)
      ↔ (∃ members, o = some members ∧ members.contains m' = true) ∧ m' ≠ m := by
  constructor
  · rintro ⟨members', ht, hm⟩
    obtain ⟨members, ho, rfl, -⟩ := trim_eq_some.mp ht
    rw [IndexMap.contains_swapRemove, Bool.and_eq_true, decide_eq_true_eq] at hm
    exact ⟨⟨members, ho, hm.2⟩, hm.1⟩
  · rintro ⟨⟨members, ho, hm⟩, hne⟩
    have hm' : (members.swapRemove m).contains m' = true := by
      rw [IndexMap.contains_swapRemove, hm, decide_eq_true hne]
      rfl
    exact ⟨_, trim_eq_some.mpr ⟨members, ho, rfl, m', hm'⟩, hm'⟩

/-- `leave` looks at one group, and removes it with its last member. -/
theorem leave_get? : (g.leave group m).groups.get? key
    = if key = ⟨group, m.port⟩ then trim m (g.groups.get? key) else g.groups.get? key := by
  unfold leave
  dsimp only
  rw [IndexMap.get?_modify, if_pos rfl]
  by_cases hk : key = ⟨group, m.port⟩
  · subst hk
    rw [if_pos rfl, trim]
    cases hget : g.groups.get? ⟨group, m.port⟩ with
    | none =>
      rw [if_neg (by simp), IndexMap.get?_modify, if_pos rfl, hget]
      rfl
    | some members =>
      rw [Option.map_some, Option.map_some, Option.getD_some]
      split
      · rename_i hempty
        rw [IndexMap.get?_swapRemove, if_pos rfl, Option.filter_some_neg (by simp [hempty])]
      · rename_i hempty
        rw [IndexMap.get?_modify, if_pos rfl, hget, Option.filter_some_pos (by simp [hempty])]
        rfl
  · rw [if_neg hk]
    split
    · rw [IndexMap.get?_swapRemove, if_neg hk, IndexMap.get?_modify, if_neg hk]
    · rw [IndexMap.get?_modify, if_neg hk]

/-- `leave_all` does to every group what `leave` does to one, by the two loops of `retain`. -/
theorem leaveAll_get? : (g.leaveAll m).groups.get? key = trim m (g.groups.get? key) := by
  apply Option.ext
  intro members
  rw [leaveAll, IndexMap.get?_retain_of_some, IndexMap.get?_mapValues, trim,
    Option.filter_eq_some_iff]

theorem member_leave : (g.leave group m).Member key m'
    ↔ g.Member key m' ∧ ¬(key = ⟨group, m.port⟩ ∧ m' = m) := by
  unfold Member
  rw [leave_get?]
  by_cases hk : key = ⟨group, m.port⟩
  · rw [if_pos hk, contains_trim]
    simp [hk]
  · simp [hk]

theorem member_leaveAll : (g.leaveAll m).Member key m' ↔ g.Member key m' ∧ m' ≠ m := by
  unfold Member
  rw [leaveAll_get?, contains_trim]

/-- A group begins with a member. -/
theorem Inhabited.join (h : g.Inhabited) : (g.join group m).Inhabited := by
  intro key members hget
  by_cases hk : key = ⟨group, m.port⟩
  · obtain ⟨members', hget', hm⟩ := (member_join (g := g)).mpr (.inr ⟨hk, rfl⟩)
    rw [hget] at hget'
    cases hget'
    exact ⟨m, hm⟩
  · refine h key members ?_
    unfold MulticastGroups.join at hget
    dsimp only at hget
    split at hget
    · rwa [IndexMap.get?_modify, if_neg hk] at hget
    · rwa [IndexMap.get?_insert, if_neg hk] at hget

theorem inhabited_trim {o : Option (IndexSet SocketAddr)} {members : IndexSet SocketAddr}
    (h : trim m o = some members) : ∃ m', members.contains m' = true := by
  obtain ⟨-, -, -, hm⟩ := trim_eq_some.mp h
  exact hm

theorem Inhabited.leave (h : g.Inhabited) : (g.leave group m).Inhabited := by
  intro key members hget
  rw [leave_get?] at hget
  split at hget
  · exact inhabited_trim hget
  · exact h key members hget

/-- Whatever the groups were before: `leave_all` removes those that are empty. -/
theorem inhabited_leaveAll : (g.leaveAll m).Inhabited := by
  intro key members hget
  rw [leaveAll_get?] at hget
  exact inhabited_trim hget

end MulticastGroups

/-! ## 2. The members -/

/-- What an event makes of a membership. -/
def Event.joins (key m : SocketAddr) (before : Bool) : Event → Bool
  | .joined group member => before || (key == group && m == member)
  | .left group member => before && !(key == group && m == member)
  | .closed member => before && m != member
  | _ => before

/-- Joined, and neither left nor dropped since? -/
def isJoined (key m : SocketAddr) (tr : List Event) : Bool := tr.foldl (Event.joins key m) false

theorem isJoined_append (key m : SocketAddr) (tr ev : List Event) :
    isJoined key m (tr ++ ev) = ev.foldl (Event.joins key m) (isJoined key m tr) :=
  List.foldl_append

namespace World

variable {w w' : World} {ev tr : List Event}

/-- No socket joins or leaves a group, and none is dropped. -/
def Quiet (ev : List Event) : Prop :=
  ∀ e ∈ ev, ∀ key m before, e.joins key m before = before

/-- While nobody joins, leaves or is dropped, the members stay. -/
theorem Quiet.isJoined (h : Quiet ev) (key m : SocketAddr) :
    Udp.isJoined key m (tr ++ ev) = Udp.isJoined key m tr := by
  rw [isJoined_append]
  generalize Udp.isJoined key m tr = before
  induction ev with
  | nil => rfl
  | cons e ev ih =>
    rw [List.foldl_cons, h e List.mem_cons_self]
    exact ih fun e he => h e (List.mem_cons_of_mem _ he)

theorem quiet_nil : Quiet [] := fun _ he => absurd he List.not_mem_nil

/-- What a step does to the groups. -/
inductive Grouped (w w' : World) (ev : List Event) : Prop
  | same (hg : w'.groups = w.groups) (hev : Quiet ev)
  | join (a : IpAddr) (port : UInt16) (group : IpAddr) (hlive : w.live a port = true)
      (hg : w'.groups = w.groups.join group ⟨a, port⟩) (hev : ev = [.joined ⟨group, port⟩ ⟨a, port⟩])
  | leave (a : IpAddr) (port : UInt16) (group : IpAddr)
      (hg : w'.groups = w.groups.leave group ⟨a, port⟩) (hev : ev = [.left ⟨group, port⟩ ⟨a, port⟩])
  | closed (m : SocketAddr) (hg : w'.groups = w.groups.leaveAll m) (hev : ev = [.closed m])

theorem receive_groups {w₁ : World} {h : IpAddr} {p : Packet} (he : w₁.receive h p = (w', ev))
    (hg : w₁.groups = w.groups) : Grouped w w' ev := by
  have hquiet : ∀ e, e = .lost p ∨ e = .discarded p ∨ (∃ c, e = .accepted c p) → Quiet [e] := by
    intro e he e' he' key m before
    cases List.mem_singleton.mp he'
    obtain rfl | rfl | ⟨c, rfl⟩ := he <;> rfl
  unfold receive at he
  split at he
  · cases he
    exact .same hg (hquiet _ (.inl rfl))
  · rename_i host _
    obtain ⟨rfl, rfl⟩ := Prod.mk.inj he
    refine .same hg (hquiet _ ?_)
    obtain hd | ⟨b, -, -, -, ha⟩ := receiveFromNetwork_cases host p
    · rw [hd]
      exact .inr (.inl rfl)
    · rw [ha]
      exact .inr (.inr ⟨_, rfl⟩)

/-- **What each step does to the groups.**  A join, a leave and the drop of a socket change them, and a
call that is refused does not. -/
theorem step_groups {op : Op} (h : w.step op = .ok (w', ev)) : Grouped w w' ev := by
  cases op with
  | host a capacity first last =>
    cases h
    split <;> exact .same rfl quiet_nil
  | assignTcp a =>
    obtain ⟨rfl, next, ports, rfl⟩ := step_assignTcp h
    exact .same rfl quiet_nil
  | tcpPorts a ports =>
    rw [step] at h
    split at h <;> cases h <;> exact .same rfl quiet_nil
  | bind a addr =>
    cases hb : w.bind a addr with
    | error panic =>
      rw [step, hb] at h
      cases h
    | ok r =>
      rw [step, hb] at h
      cases h
      exact .same (bind_flight hb).2.2 quiet_nil
  | connect | setBroadcast | setMulticastLoop =>
    cases h
    exact .same rfl quiet_nil
  | joinMulticast a port group =>
    rw [step] at h
    split at h
    · rename_i hlive
      dsimp only at h
      unfold joinMulticast at h
      split at h
      · cases h
        exact .join a port group hlive rfl rfl
      · cases h
        exact .same rfl quiet_nil
    · cases h
      exact .same rfl quiet_nil
  | leaveMulticast a port group =>
    rw [step] at h
    split at h
    · dsimp only at h
      unfold leaveMulticast at h
      split at h
      · split at h
        · cases h
          exact .leave a port group rfl rfl
        · cases h
          exact .same rfl quiet_nil
      · cases h
        exact .same rfl quiet_nil
    · cases h
      exact .same rfl quiet_nil
  | drop a port =>
    rw [step] at h
    split at h
    · cases h
      exact .closed ⟨a, port⟩ rfl rfl
    · cases h
      exact .same rfl quiet_nil
  | send a port dst d =>
    obtain ⟨-, -, -, hg, hsent⟩ := send_moves (rfl : w.send a port dst d = _)
    cases h
    refine .same hg fun e he => ?_
    obtain ⟨p, rfl⟩ := hsent e he
    exact fun _ _ _ => rfl
  | deliver i =>
    rw [step] at h
    split at h
    · cases h
      exact .same rfl quiet_nil
    · exact receive_groups (Except.ok.inj h) rfl
  | deliverLoop i =>
    rw [step] at h
    split at h
    · cases h
      exact .same rfl quiet_nil
    · exact receive_groups (Except.ok.inj h) rfl
  | lose i | cancelLoop i =>
    rw [step] at h
    split at h
    · cases h
      exact .same rfl quiet_nil
    · cases h
      refine .same rfl fun e he => ?_
      cases List.mem_singleton.mp he
      exact fun _ _ _ => rfl
  | readable a port =>
    rw [step] at h
    split at h <;> cases h <;> exact .same rfl quiet_nil
  | tryRecvFrom a port len =>
    rw [step] at h
    split at h
    · cases h
      exact .same rfl quiet_nil
    · split at h
      · cases h
        exact .same rfl quiet_nil
      · cases h
        refine .same rfl fun e he => ?_
        cases List.mem_singleton.mp he
        exact fun _ _ _ => rfl

/-- A call can be made on a socket that is there. -/
theorem live_iff {a : IpAddr} {port : UInt16} :
    w.live a port = true ↔ ∃ s, w.socket? a port = some s := by
  rw [live, Option.isSome_iff_exists, bind?, socket?]
  cases w.hosts.get? a with
  | none => simp
  | some host =>
    show (∃ b, host.binds.get? port = some b) ↔ ∃ s, (host.binds.get? port).map (sockOf host) = some s
    cases host.binds.get? port <;> simp

/-- A socket stays until it is dropped. -/
theorem Change.live {a : IpAddr} {port : UInt16} (hc : Change w w' ev) (h : w.live a port = true)
    (hev : ev ≠ [.closed ⟨a, port⟩]) : w'.live a port = true := by
  obtain ⟨s, hs⟩ := live_iff.mp h
  refine live_iff.mpr ?_
  cases hc with
  | same hsame =>
    rw [hsame]
    exact ⟨s, hs⟩
  | bound _ _ s' _ _ _ _ hafter =>
    rw [hafter]
    split
    · exact ⟨s', rfl⟩
    · exact ⟨s, hs⟩
  | closed a' port' hafter _ hclosed =>
    rw [hafter, if_neg fun e => hev (by rw [hclosed, e.1, e.2])]
    exact ⟨s, hs⟩
  | moved _ _ _ s' _ _ _ _ _ _ _ hafter =>
    rw [hafter]
    split
    · exact ⟨s', rfl⟩
    · exact ⟨s, hs⟩

/-- The tables say who is a member, and members are there. -/
structure Members (w : World) (tr : List Event) : Prop where
  joined : ∀ key m, w.groups.Member key m ↔ isJoined key m tr = true
  inhabited : w.groups.Inhabited
  live : ∀ {key m}, w.groups.Member key m → w.live m.ip m.port = true
  port : ∀ {key m}, w.groups.Member key m → key.port = m.port
  bindPort : ∀ {a port s}, w.socket? a port = some s → s.bindAddr.port = port

/-- A bind address has the port of its bind. -/
theorem Change.bindPort (hc : Change w w' ev)
    (hi : ∀ {a port s}, w.socket? a port = some s → s.bindAddr.port = port) {a : IpAddr}
    {port : UInt16} {s : Sock} (hs : w'.socket? a port = some s) : s.bindAddr.port = port := by
  cases hc with
  | same hsame => exact hi (hsame a port ▸ hs)
  | bound _ _ _ _ hport _ _ hafter =>
    rw [hafter] at hs
    split at hs
    · rename_i e
      cases hs
      rw [hport, e.2]
    · exact hi hs
  | closed _ _ hafter =>
    rw [hafter] at hs
    split at hs
    · cases hs
    · exact hi hs
  | moved _ _ _ _ hget _ haddr _ _ _ _ hafter =>
    rw [hafter] at hs
    split at hs
    · rename_i e
      cases hs
      rw [haddr, hi hget, e.2]
    · exact hi hs

/-- **One step** keeps the invariant.  The step that needs it is the drop of a socket: it leaves every
group in the same step, so no member is ever a socket that is gone. -/
theorem Members.step (hi : Members w tr) (hg : Grouped w w' ev) (hc : Change w w' ev) :
    Members w' (tr ++ ev) := by
  cases hg with
  | same hg hev =>
    refine ⟨fun key m => ?_, hg ▸ hi.inhabited, fun {key m} hm => ?_, fun hm => hi.port (hg ▸ hm),
      hc.bindPort hi.bindPort⟩
    · rw [hg, hev.isJoined]
      exact hi.joined key m
    · refine hc.live (hi.live (hg ▸ hm)) fun e => ?_
      have := hev (.closed ⟨m.ip, m.port⟩) (e ▸ List.mem_singleton_self _) key m true
      simp [Event.joins] at this
  | join a port group hlive hg hev =>
    refine ⟨fun key m => ?_, hg ▸ hi.inhabited.join, fun {key m} hm => ?_, fun {key m} hm => ?_,
      hc.bindPort hi.bindPort⟩
    · rw [hg, MulticastGroups.member_join, hi.joined, isJoined_append, hev]
      simp [Event.joins]
    · refine hc.live ?_ (by rw [hev]; simp)
      rcases MulticastGroups.member_join.mp (hg ▸ hm) with hm | ⟨-, rfl⟩
      · exact hi.live hm
      · exact hlive
    · rcases MulticastGroups.member_join.mp (hg ▸ hm) with hm | ⟨rfl, rfl⟩
      · exact hi.port hm
      · rfl
  | leave a port group hg hev =>
    refine ⟨fun key m => ?_, hg ▸ hi.inhabited.leave, fun {key m} hm => ?_, fun {key m} hm => ?_,
      hc.bindPort hi.bindPort⟩
    · rw [hg, MulticastGroups.member_leave, hi.joined, isJoined_append, hev]
      simp [Event.joins, imp_iff_not_or]
    · refine hc.live (hi.live (MulticastGroups.member_leave.mp (hg ▸ hm)).1) (by rw [hev]; simp)
    · exact hi.port (MulticastGroups.member_leave.mp (hg ▸ hm)).1
  | closed m₀ hg hev =>
    refine ⟨fun key m => ?_, hg ▸ MulticastGroups.inhabited_leaveAll, fun {key m} hm => ?_,
      fun {key m} hm => ?_, hc.bindPort hi.bindPort⟩
    · rw [hg, MulticastGroups.member_leaveAll, hi.joined, isJoined_append, hev]
      simp [Event.joins]
    · obtain ⟨hm, hne⟩ := MulticastGroups.member_leaveAll.mp (hg ▸ hm)
      refine hc.live (hi.live hm) fun e => hne ?_
      rw [hev] at e
      cases e
      rfl
    · exact hi.port (MulticastGroups.member_leaveAll.mp (hg ▸ hm)).1

theorem Members.new : Members new [] where
  joined key m := by
    refine iff_of_false ?_ Bool.false_ne_true
    rintro ⟨_, h, _⟩
    cases h
  inhabited key members h := by cases h
  live h := by
    obtain ⟨_, h, _⟩ := h
    cases h
  port h := by
    obtain ⟨_, h, _⟩ := h
    cases h
  bindPort h := by cases h

theorem Members.run {ops : List Op} : ∀ {w w' : World} {tr ev : List Event}, Members w tr →
    w.run ops = .ok (w', ev) → Members w' (tr ++ ev) := by
  induction ops with
  | nil =>
    intro w w' tr ev hi h
    cases h
    rw [List.append_nil]
    exact hi
  | cons op ops ih =>
    intro w w' tr ev hi h
    obtain ⟨⟨w₁, first⟩, h₁, h⟩ := Net.bind_eq_ok.mp h
    obtain ⟨⟨w₂, rest⟩, h₂, h⟩ := Net.bind_eq_ok.mp h
    cases h
    rw [← List.append_assoc]
    exact ih (hi.step (step_groups h₁) (step_change h₁)) h₂

/-! ## 3. To whom a datagram goes -/

def Target.dst? : Target → Option SocketAddr
  | .loopback dst => some dst
  | .network dst => some dst
  | .nowhere => none

/-- Where all copies have a link, all are sent. -/
theorem emit_eq {h : IpAddr} {src : SocketAddr} {d : Datagram} : ∀ {ts : List Target} {w : World},
    (∀ dst, .network dst ∈ ts → w.hosts.contains src.ip = true ∧ w.hosts.contains dst.ip = true) →
    ∃ w', emit h src d ts w
      = (w', .ok (), (ts.filterMap Target.dst?).map fun dst => .sent ⟨src, dst, d⟩) := by
  intro ts
  induction ts with
  | nil => exact fun {w} _ => ⟨w, rfl⟩
  | cons t ts ih =>
    intro w hlink
    have hrest : ∀ dst, .network dst ∈ ts →
        w.hosts.contains src.ip = true ∧ w.hosts.contains dst.ip = true :=
      fun dst hmem => hlink dst (List.mem_cons_of_mem _ hmem)
    cases t with
    | nowhere => exact ih hrest
    | loopback dst =>
      obtain ⟨w', h'⟩ := @ih { w with loops := w.loops ++ [(h, ⟨src, dst, d⟩)] } hrest
      refine ⟨w', ?_⟩
      rw [emit, h']
      rfl
    | network dst =>
      obtain ⟨w', h'⟩ := @ih { w with flight := w.flight ++ [⟨src, dst, d⟩] } hrest
      refine ⟨w', ?_⟩
      obtain ⟨h₁, h₂⟩ := hlink dst List.mem_cons_self
      rw [emit, if_pos (by rw [h₁, h₂]; rfl), h']
      rfl

/-- A socket that is there has a host that is there, and so links to all the others. -/
theorem contains_of_live {a : IpAddr} {port : UInt16} (h : w.live a port = true) :
    w.hosts.contains a = true := by
  obtain ⟨s, hs⟩ := live_iff.mp h
  obtain ⟨host, hget, -⟩ := Option.bind_eq_some_iff.mp hs
  exact IndexMap.contains_iff.mpr ⟨host, hget⟩

/-- The address of a group is not loopback, so a datagram to it comes from the host's own address. -/
theorem isLoopback_of_isMulticast {ip : IpAddr} (h : isMulticast ip = true) :
    ip.isLoopback = false := by
  cases ip with
  | v4 a =>
    rw [isMulticast, beq_iff_eq] at h
    rw [IpAddr.isLoopback, beq_eq_false_iff_ne]
    bv_omega
  | v6 a =>
    rw [isMulticast, beq_iff_eq] at h
    rw [IpAddr.isLoopback, beq_eq_false_iff_ne]
    rintro rfl
    exact absurd h (by decide)

theorem isBroadcast_of_isMulticast {ip : IpAddr} (h : isMulticast ip = true) :
    isBroadcast ip = false := by
  rw [isBroadcast, beq_eq_false_iff_ne]
  rintro rfl
  exact absurd h (by decide)

/-- A datagram from a socket that is bound to all addresses comes from its host. -/
theorem source_eq {a : IpAddr} {localAddr dst : SocketAddr} (hany : localAddr.ip.isUnspecified = true)
    (hdst : dst.ip.isLoopback = false) : source a localAddr dst = ⟨a, localAddr.port⟩ := by
  unfold source
  simp [hdst, hany]

theorem bind?_eq {a : IpAddr} {port : UInt16} {b : UdpBind} (h : w.bind? a port = some b) :
    ∃ host, w.hosts.get? a = some host ∧ host.binds.get? port = some b
      ∧ w.socket? a port = some (sockOf host b) := by
  obtain ⟨host, hget, hbind⟩ := Option.bind_eq_some_iff.mp h
  refine ⟨host, hget, hbind, ?_⟩
  rw [socket?, hget]
  show (host.binds.get? port).map _ = _
  rw [hbind]
  rfl

/-- Where the copy for one member goes. -/
def memberTarget (a : IpAddr) (host : Host) (m : SocketAddr) : Target :=
  if a = m.ip then if host.isMulticastLoopEnabled m.port then .loopback m else .nowhere
  else .network m

theorem eq_of_memberTarget {a : IpAddr} {host : Host} {m m' : SocketAddr}
    (h : (memberTarget a host m).dst? = some m') : m = m' := by
  unfold memberTarget at h
  split at h
  · split at h <;> cases h
    rfl
  · cases h
    rfl

/-- A member of the own host gets its copy if it wants it. -/
theorem memberTarget_dst? {a : IpAddr} {host : Host} (hget : w.hosts.get? a = some host)
    {m : SocketAddr} (hlive : w.live m.ip m.port = true) : (memberTarget a host m).dst? = some m
      ↔ (m.ip = a → ∃ b, w.bind? a m.port = some b ∧ b.multicastLoop = true) := by
  unfold memberTarget
  by_cases ha : a = m.ip
  · subst ha
    obtain ⟨b, hb⟩ := Option.isSome_iff_exists.mp hlive
    obtain ⟨host', hget', hbind, -⟩ := bind?_eq hb
    rw [hget] at hget'
    cases hget'
    have henabled : host.isMulticastLoopEnabled m.port = b.multicastLoop := by
      rw [Host.isMulticastLoopEnabled, hbind]
      rfl
    rw [if_pos rfl, henabled, hb]
    cases hloop : b.multicastLoop
    · refine iff_of_false (fun h => by cases h) fun h => ?_
      obtain ⟨b', he, hb'⟩ := h rfl
      cases he
      rw [hloop] at hb'
      cases hb'
    · exact iff_of_true rfl fun _ => ⟨b, rfl, hloop⟩
  · rw [if_neg ha]
    exact iff_of_true rfl fun e => absurd e.symm ha

/-- **A datagram to a group reaches its members.**  After every run, a socket that is bound to all
addresses can send to every group; one copy goes to every socket that joined the group and has neither
left it nor been dropped since, except to one of the own host that does not want it. -/
theorem multicast_reaches_members {ops : List Op} {w : World} {tr : List Event}
    (hrun : new.run ops = .ok (w, tr)) {a : IpAddr} {port : UInt16} {b : UdpBind}
    (hb : w.bind? a port = some b) (hany : b.bindAddr.ip.isUnspecified = true) {dst : SocketAddr}
    (hdst : isMulticast dst.ip = true) (d : Datagram) :
    ∃ (w' : World) (members : List SocketAddr), w.send a port dst d
        = (w', .ok (), members.map fun m => .sent ⟨⟨a, port⟩, m, d⟩)
      ∧ members.Nodup
      ∧ ∀ m, m ∈ members ↔ isJoined dst m tr = true
          ∧ (m.ip = a → ∃ b', w.bind? a m.port = some b' ∧ b'.multicastLoop = true) := by
  have hi : Members w tr := Members.new.run hrun
  obtain ⟨host, hget, hbind, hsock⟩ := bind?_eq hb
  have hsrc : source a b.bindAddr dst = ⟨a, port⟩ := by
    rw [source_eq hany (isLoopback_of_isMulticast hdst)]
    exact congrArg (SocketAddr.mk a) (hi.bindPort hsock)
  have hts : w.targets host ⟨a, port⟩ dst
      = .ok ((w.groups.destinationAddresses dst).map (memberTarget a host)) := by
    rw [targets, isBroadcast_of_isMulticast hdst, hdst]
    rfl
  have hlive : ∀ m ∈ w.groups.destinationAddresses dst, w.live m.ip m.port = true :=
    fun m hm => hi.live (MulticastGroups.mem_destinationAddresses.mp hm)
  obtain ⟨w', hemit⟩ := @emit_eq a ⟨a, port⟩ d
      ((w.groups.destinationAddresses dst).map (memberTarget a host)) w fun m hm => by
    obtain ⟨m', hm', heq⟩ := List.mem_map.mp hm
    cases eq_of_memberTarget (congrArg Target.dst? heq)
    exact ⟨IndexMap.contains_iff.mpr ⟨host, hget⟩, contains_of_live (hlive m hm')⟩
  refine ⟨w', ((w.groups.destinationAddresses dst).map (memberTarget a host)).filterMap Target.dst?,
    ?_, ?_, fun m => ?_⟩
  · rw [send, hget, hb]
    dsimp only
    rw [hsrc, hts]
    exact hemit
  · rw [List.filterMap_map]
    refine MulticastGroups.nodup_destinationAddresses.filterMap fun m₁ m₂ m h₁ h₂ => ?_
    exact (eq_of_memberTarget h₁).trans (eq_of_memberTarget h₂).symm
  · rw [List.filterMap_map, List.mem_filterMap, ← hi.joined,
      ← MulticastGroups.mem_destinationAddresses]
    constructor
    · rintro ⟨m', hm', hto⟩
      cases eq_of_memberTarget hto
      exact ⟨hm', (memberTarget_dst? hget (hlive m hm')).mp hto⟩
    · rintro ⟨hm, hwant⟩
      exact ⟨m, hm, (memberTarget_dst? hget (hlive m hm)).mpr hwant⟩

/-- A socket on each of two hosts joins, and a second one on the first host joins and leaves. -/
def joining : List Op :=
  [.host (.v4 1) 2 49152 65535, .host (.v4 2) 2 49152 65535, .bind (.v4 1) ⟨.v4 0, 10⟩,
    .bind (.v4 2) ⟨.v4 0, 10⟩, .bind (.v4 1) ⟨.v4 0, 11⟩, .joinMulticast (.v4 1) 10 (.v4 0xE0000001),
    .joinMulticast (.v4 2) 10 (.v4 0xE0000001), .joinMulticast (.v4 1) 11 (.v4 0xE0000001),
    .leaveMulticast (.v4 1) 11 (.v4 0xE0000001)]

theorem multicast_reaches_members_joining : ∃ w tr b, new.run joining = .ok (w, tr)
    ∧ w.bind? (.v4 1) 11 = some b
    ∧ ∃ (w' : World) (members : List SocketAddr), w.send (.v4 1) 11 ⟨.v4 0xE0000001, 10⟩ [7]
        = (w', .ok (), members.map fun m => .sent ⟨⟨.v4 1, 11⟩, m, [7]⟩)
      ∧ (⟨.v4 2, 10⟩ : SocketAddr) ∈ members := by
  obtain ⟨w, tr, b, hrun, hb, hany, hjoined⟩ : ∃ w tr b, new.run joining = .ok (w, tr)
      ∧ w.bind? (.v4 1) 11 = some b ∧ b.bindAddr.ip.isUnspecified = true
      ∧ isJoined ⟨.v4 0xE0000001, 10⟩ ⟨.v4 2, 10⟩ tr = true :=
    ⟨_, _, _, rfl, rfl, by decide, by decide⟩
  have hgroup : isMulticast (⟨.v4 0xE0000001, 10⟩ : SocketAddr).ip = true := by decide
  obtain ⟨w', members, hsend, -, hmem⟩ :=
    multicast_reaches_members hrun hb hany hgroup [7]
  exact ⟨w, tr, b, hrun, hb, w', members, hsend, (hmem _).mpr ⟨hjoined, fun h => by cases h⟩⟩

/-- A host gets a broadcast if one of its sockets has the port, whatever address it is bound to. -/
theorem isPortAssigned_iff {host : Host} {port : UInt16} :
    host.isPortAssigned port = true ↔ host.binds.contains port = true := by
  rw [Host.isPortAssigned, List.any_eq_true, IndexMap.contains_iff_mem_keys]
  simp

/-- Where the copy for one host goes. -/
def hostTarget (a : IpAddr) (port : UInt16) (e : IpAddr × Host) : Target :=
  if a = e.1 then .loopback ⟨e.1, port⟩ else .network ⟨e.1, port⟩

theorem hostTarget_dst? {a : IpAddr} {port : UInt16} {e : IpAddr × Host} :
    (hostTarget a port e).dst? = some ⟨e.1, port⟩ := by
  unfold hostTarget
  split <;> rfl

/-- **A broadcast reaches every host with the port.**  After every run, where it is enabled for a
socket that is bound to all addresses, one copy goes to each host that has a socket at the port. -/
theorem broadcast_reaches_ports {ops : List Op} {w : World} {tr : List Event}
    (hrun : new.run ops = .ok (w, tr)) {a : IpAddr} {port : UInt16} {b : UdpBind}
    (hb : w.bind? a port = some b) (hany : b.bindAddr.ip.isUnspecified = true)
    (hon : b.broadcast = true) {dst : SocketAddr} (hdst : isBroadcast dst.ip = true) (d : Datagram) :
    ∃ (w' : World) (members : List SocketAddr), w.send a port dst d
        = (w', .ok (), members.map fun m => .sent ⟨⟨a, port⟩, m, d⟩)
      ∧ members.Nodup
      ∧ ∀ m, m ∈ members ↔ m.port = dst.port ∧ w.live m.ip m.port = true := by
  have hi : Members w tr := Members.new.run hrun
  obtain ⟨host, hget, hbind, hsock⟩ := bind?_eq hb
  have hip : dst.ip = .v4 0xFFFFFFFF := beq_iff_eq.mp hdst
  have hsrc : source a b.bindAddr dst = ⟨a, port⟩ := by
    rw [source_eq hany (by rw [hip]; decide)]
    exact congrArg (SocketAddr.mk a) (hi.bindPort hsock)
  have henabled : host.isBroadcastEnabled port = true := by
    rw [Host.isBroadcastEnabled, hbind]
    exact hon
  have hts : w.targets host ⟨a, port⟩ dst = .ok ((w.hosts.entries.filter fun e =>
      e.2.isPortAssigned dst.port).map (hostTarget a dst.port)) := by
    rw [targets, hdst, henabled]
    rfl
  obtain ⟨w', hemit⟩ := @emit_eq a ⟨a, port⟩ d ((w.hosts.entries.filter fun e =>
      e.2.isPortAssigned dst.port).map (hostTarget a dst.port)) w fun m hm => by
    obtain ⟨e, he, heq⟩ := List.mem_map.mp hm
    have hm' : (⟨e.1, dst.port⟩ : SocketAddr) = m :=
      Option.some.inj (hostTarget_dst?.symm.trans (congrArg Target.dst? heq))
    refine ⟨IndexMap.contains_iff.mpr ⟨host, hget⟩, ?_⟩
    rw [← hm']
    exact IndexMap.contains_iff.mpr ⟨e.2, IndexMap.mem_entries.mp (List.mem_filter.mp he).1⟩
  have hmembers : ((w.hosts.entries.filter fun e => e.2.isPortAssigned dst.port).map
      (hostTarget a dst.port)).filterMap Target.dst?
        = (w.hosts.entries.filter fun e => e.2.isPortAssigned dst.port).map
            fun e => ⟨e.1, dst.port⟩ := by
    rw [List.filterMap_map, ← List.filterMap_eq_map]
    refine List.filterMap_congr fun e _ => ?_
    exact hostTarget_dst?
  refine ⟨w', (w.hosts.entries.filter fun e => e.2.isPortAssigned dst.port).map
    fun e => ⟨e.1, dst.port⟩, ?_, ?_, fun m => ?_⟩
  · rw [send, hget, hb]
    dsimp only
    rw [hsrc, hts, ← hmembers]
    exact hemit
  · refine List.Nodup.of_map SocketAddr.ip ?_
    rw [List.map_map]
    exact w.hosts.nodup.sublist (List.filter_sublist.map Prod.fst)
  · rw [List.mem_map]
    constructor
    · rintro ⟨e, he, rfl⟩
      obtain ⟨hmem, hport⟩ := List.mem_filter.mp he
      obtain ⟨b', hb'⟩ := IndexMap.contains_iff.mp (isPortAssigned_iff.mp hport)
      refine ⟨rfl, Option.isSome_iff_exists.mpr ⟨b', ?_⟩⟩
      rw [bind?, IndexMap.mem_entries.mp hmem]
      exact hb'
    · rintro ⟨hport, hlive⟩
      obtain ⟨b', hb'⟩ := Option.isSome_iff_exists.mp hlive
      obtain ⟨host', hget', hbind', -⟩ := bind?_eq hb'
      refine ⟨(m.ip, host'), List.mem_filter.mpr ⟨IndexMap.mem_entries.mpr hget', ?_⟩, ?_⟩
      · exact isPortAssigned_iff.mpr (IndexMap.contains_iff.mpr ⟨b', hport ▸ hbind'⟩)
      · rw [← hport]

theorem broadcast_reaches_ports_joining : ∃ w tr b,
    new.run (joining ++ [.setBroadcast (.v4 1) 11 true]) = .ok (w, tr)
      ∧ w.bind? (.v4 1) 11 = some b
      ∧ ∃ (w' : World) (members : List SocketAddr), w.send (.v4 1) 11 ⟨.v4 0xFFFFFFFF, 10⟩ [7]
          = (w', .ok (), members.map fun m => .sent ⟨⟨.v4 1, 11⟩, m, [7]⟩)
        ∧ (⟨.v4 2, 10⟩ : SocketAddr) ∈ members := by
  obtain ⟨w, tr, b, hrun, hb, hany, hon, hlive⟩ : ∃ w tr b,
      new.run (joining ++ [.setBroadcast (.v4 1) 11 true]) = .ok (w, tr)
        ∧ w.bind? (.v4 1) 11 = some b ∧ b.bindAddr.ip.isUnspecified = true ∧ b.broadcast = true
        ∧ w.live (.v4 2) 10 = true :=
    ⟨_, _, _, rfl, rfl, by decide, by decide, by decide⟩
  have hall : isBroadcast (⟨.v4 0xFFFFFFFF, 10⟩ : SocketAddr).ip = true := by decide
  obtain ⟨w', members, hsend, -, hmem⟩ := broadcast_reaches_ports hrun hb hany hon hall [7]
  exact ⟨w, tr, b, hrun, hb, w', members, hsend, (hmem _).mpr ⟨rfl, hlive⟩⟩

end World

end Turmoil.Udp
