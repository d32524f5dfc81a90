/-
# The backlog of a listener

A listener holds the children in its queue and those still in their handshake, and `accept_syn` means
to keep the two within the backlog.  It counts the queue by the listener, but the handshakes by the
local address of the SYN.  For a listener on a wildcard these are different counts: with two local
addresses it admits a child at each although its backlog is one.

`overfills` is the SYN that slips through: admitted by the count that is made, refused by the count
that is meant.  A run without one keeps every listener within its backlog.  The argument is on
`Kernel.Load`: calm steps keep it, a new listener starts with nothing to hold, and an admitted SYN
that does not overfill leaves room for its child.
-/
import Mathlib.Data.List.Perm.Subperm
import Turmoil.Net.Listeners

namespace Turmoil.Net

namespace Kernel

/-! ## 1. The bound -/

/-- The children in their handshake that `find_listener` gives to a listener. -/
def children (k : Kernel) (g : Fd) : List Fd :=
  (k.sockets.sockets.entries.map Prod.fst).filter (k.isChildOf g)

/-- **Every listener is within its backlog.** -/
def WithinBacklog (k : Kernel) : Prop :=
  ∀ g st l, k.lookup g = some st → st.listen = some l →
    l.ready.length + (k.children g).length ≤ l.backlog

/-- The same, with the load of a listener. -/
def Bounded (k : Kernel) : Prop :=
  ∀ g st l, k.lookup g = some st → st.listen = some l → k.Load g l.backlog

variable {own : Fd → Option Handle} {live : Fd → Prop} {k k' : Kernel} {fd g : Fd} {st : Socket}
  {loc rem : SocketAddr} {s : TcpSegment}

theorem ready_eq {l : ListenState} (hst : k.lookup g = some st) (hl : st.listen = some l) :
    k.sockets.ready g = l.ready := by
  rw [SocketTable.ready, show k.sockets.get g = some st from hst, Option.bind_some, hl]

theorem mem_children (ht : k.Tidy own live) (he : k.Exclusive) {c : Fd} :
    c ∈ k.children g ↔ k.ChildOf g c := by
  rw [children, List.mem_filter, isChildOf_iff ht he, and_iff_right_iff_imp]
  rintro ⟨st, key, hst, -⟩
  exact List.mem_map.mpr ⟨(c, st), IndexMap.mem_entries.mpr hst, rfl⟩

/-- **The load is the count.** -/
theorem load_iff (ht : k.Tidy own live) (he : k.Exclusive) {n : Nat} :
    k.Load g n ↔ (k.sockets.ready g).length + (k.children g).length ≤ n := by
  constructor
  · intro h
    exact h (k.children g) (k.sockets.sockets.nodup.filter _) fun c hc => (mem_children ht he).mp hc
  · intro h cs hcs hchild
    have hlen := (List.Nodup.subperm hcs
      fun c hc => (mem_children ht he).mpr (hchild c hc)).length_le
    omega

theorem Bounded.within (ht : k.Tidy own live) (he : k.Exclusive) (h : k.Bounded) :
    k.WithinBacklog := by
  intro g st l hst hl
  have := (load_iff ht he).mp (h g st l hst hl)
  rwa [ready_eq hst hl] at this

/-! ## 2. Steps -/

/-- Calm steps keep the bound. -/
theorem Bounded.calm (h : k.Bounded) (hc : Calm k k') : k'.Bounded := by
  intro g st l hst hl
  obtain ⟨st0, l0, hst0, hl0, -, hn⟩ := hc.same g st l hst hl
  rw [hn]
  exact hc.load g _ (h g st0 l0 hst0 hl0)

/-- A new listener has nothing to hold: its address was vacant. -/
theorem Bounded.newListener (ht : k.Tidy own live) (h : k.Bounded) {key : BindKey} {n : Nat}
    (hn : NewListener k k' key n) : k'.Bounded := by
  -- a child was there before, and is no child of the new listener
  have hold : ∀ {x c}, k'.ChildOf x c → x ≠ k.sockets.nextId ∧ k.ChildOf x c := by
    rintro x c ⟨cst, ckey, hcst, hr, hcb, xst, l, xkey, hxst, hxl, hxb, h1, h2, h3⟩
    have hcst0 : k.lookup c = some cst := by
      rw [hn.lookup] at hcst
      split at hcst
      · cases hcst
        obtain ⟨t, htcb, -⟩ := hr
        cases htcb
      · exact hcst
    have hfit := ht.socket c cst hcst0
    rw [hn.lookup] at hxst
    split at hxst
    · cases hxst
      cases hxb
      obtain ⟨t, htcb, -⟩ := hr
      have hty : ckey.ty = key.ty := by
        rw [(hfit.key ckey hcb).2.1, (hfit.tcb (by rw [htcb]; exact Option.some_ne_none t)).1, hn.ty]
      have hdom : ckey.domain = key.domain := ((hfit.key ckey hcb).2.2).trans h1.symm
      obtain ⟨hne, -, hwild⟩ := hn.vacant c cst ckey hcst0 hcb hdom hty h2.symm
      rcases h3 with h3 | h3
      · exact absurd h3.symm hne
      · rw [h3, isUnspecified_unspecifiedLike] at hwild
        cases hwild
    · rename_i hx
      exact ⟨hx, cst, ckey, hcst0, hr, hcb, xst, l, xkey, hxst, hxl, hxb, h1, h2, h3⟩
  intro g st l hst hl cs hcs hchild
  have hstg := hst
  rw [hn.lookup] at hst
  split at hst
  · rename_i hg
    cases hst
    cases hl
    rw [ready_eq hstg rfl]
    cases cs with
    | nil => exact Nat.zero_le _
    | cons c cs => exact absurd hg (hold (hchild c List.mem_cons_self)).1
  · rw [ready_eq hstg hl, ← ready_eq hst hl]
    exact h g st l hst hl cs hcs fun c hc => (hold (hchild c hc)).2

/-- **Would this packet overfill a listener?**  A SYN that `accept_syn` admits, counting the
handshakes at its own local address, to a listener whose queue and handshakes fill the backlog. -/
def overfills (k : Kernel) (pkt : Packet) : Bool :=
  match pkt.payload with
  | .udp _ => false
  | .tcp s =>
    let loc : SocketAddr := ⟨pkt.dst, s.dstPort⟩
    (k.sockets.findConnection loc ⟨pkt.src, s.srcPort⟩).isNone && (s.flags.syn && !s.flags.ack)
      && match k.findListener loc with
        | .ok (some g) =>
          match (k.lookup g).bind (·.listen) with
          | some l => decide (k.countChildren g loc + l.ready.length < l.backlog)
              && decide (l.backlog ≤ l.ready.length + (k.children g).length)
          | none => false
        | _ => false

/-- A SYN is only admitted below the backlog, as it is counted. -/
theorem acceptSyn_admits (h : k.acceptSyn g loc rem s = .ok k') : k' = k ∨
    ∃ st l, k.lookup g = some st ∧ st.listen = some l
      ∧ k.countChildren g loc + l.ready.length < l.backlog := by
  obtain ⟨st, hst, h⟩ := bind_eq_ok.mp h
  obtain ⟨l, hl, h⟩ := bind_eq_ok.mp h
  split at h
  · cases h
    exact Or.inl rfl
  · rename_i hlt
    exact Or.inr ⟨st, l, expect_eq_ok.mp hst, expect_eq_ok.mp hl, Nat.lt_of_not_le hlt⟩

/-- **An admitted child** fits, when its listener had room for one more. -/
theorem Bounded.acceptSyn (ht : k.Tidy own live) (he : k.Exclusive) (h : k.Bounded)
    (hg : k.ListensAt loc g)
    (hroom : ∀ st l, k.lookup g = some st → st.listen = some l →
      l.ready.length + (k.children g).length < l.backlog)
    (ha : k.acceptSyn g loc rem s = .ok k') : k'.Bounded := by
  rcases acceptSyn_lookup ha with rfl | ⟨child, hl, hr, hb, hlook⟩
  · exact h
  · have hnext := (SocketTable.Tidy.next ht).1
    -- a child of the new table is the new one or was there before
    have hold : ∀ {x c}, k'.ChildOf x c →
        (c = k.sockets.nextId ∧ x = g) ∨ (c ≠ k.sockets.nextId ∧ k.ChildOf x c) := by
      rintro x c ⟨cst, ckey, hcst, hcr, hcb, hx⟩
      have hx0 := (acceptSyn_same ha).listensAt hx
      rw [hlook] at hcst
      split at hcst
      · rename_i hc
        cases hcst
        rw [hcb, Option.map_some, Option.some_inj] at hb
        rw [hb] at hx0
        have h1 := (findListener_eq_ok ht he).mpr hx0
        rw [(findListener_eq_ok ht he).mpr hg] at h1
        exact Or.inl ⟨hc, (Option.some.inj (Except.ok.inj h1)).symm⟩
      · rename_i hc
        exact Or.inr ⟨hc, cst, ckey, hcst, hcr, hcb, hx0⟩
    intro x st l hst hxl cs hcs hchild
    have hstx := hst
    rw [hlook] at hst
    split at hst
    · cases hst
      rw [hl] at hxl
      cases hxl
    · rw [ready_eq hstx hxl]
      by_cases hmem : k.sockets.nextId ∈ cs
      · -- one new child, next to children that were counted
        obtain ⟨-, rfl⟩ | ⟨hne, -⟩ := hold (hchild _ hmem)
        · have hrest := ((load_iff ht he).mpr (Nat.le_refl _)) (cs.erase k.sockets.nextId)
            (hcs.erase _) fun c hc => by
              obtain ⟨hne, hc⟩ := (hcs.mem_erase_iff).mp hc
              exact ((hold (hchild c hc)).resolve_left fun heq => hne heq.1).2
          have hlen := List.length_erase_of_mem hmem
          have hpos := List.length_pos_of_mem hmem
          have := hroom st l hst hxl
          rw [ready_eq hst hxl] at hrest
          omega
        · exact absurd rfl hne
      · have := h x st l hst hxl cs hcs fun c hc =>
          ((hold (hchild c hc)).resolve_left fun heq => hmem (heq.1 ▸ hc)).2
        rwa [ready_eq hst hxl] at this

/-- **A packet that overfills no listener** keeps them within their backlogs. -/
theorem Bounded.deliver (ht : k.Tidy own live) (he : k.Exclusive) (h : k.Bounded) {pkt : Packet}
    (hno : k.overfills pkt = false) (hd : k.deliver pkt = .ok k') : k'.Bounded := by
  rcases deliver_calm ht hd with hc | ⟨s, g, hp, hnone, hsyn, hg, ha⟩
  · exact h.calm hc
  · rcases acceptSyn_admits ha with rfl | ⟨st, l, hst, hl, hlt⟩
    · exact h
    · refine h.acceptSyn ht he ((findListener_eq_ok ht he).mp hg) (fun st' l' hst' hl' => ?_) ha
      cases hst.symm.trans hst'
      cases hl.symm.trans hl'
      simp only [overfills, hp, hnone, Option.isNone_none, hsyn, hg, hst, Option.bind_some, hl,
        Bool.true_and, Bool.and_eq_false_iff, decide_eq_false_iff_not] at hno
      omega

end Kernel

/-! ## 3. Runs -/

namespace Host

open Kernel

variable {h h' : Host}

/-- Does this step overfill no listener? -/
def respects (h : Host) : ShimOp → Bool
  | .deliver pkt => !h.kernel.overfills pkt
  | .egress fuel => h.kernel.egressMeets (fun k pkt => !k.overfills pkt) fuel
  | .listen _ | .connect _ | .bindUdp _ | .call _ => true

/-- Does no step of a run? -/
def runRespects (h : Host) : List ShimOp → Bool
  | [] => true
  | op :: ops => h.respects op && match h.step op with
    | .ok (h, _, _) => runRespects h ops
    | .error _ => true

/-- **A step that overfills no listener** keeps them within their backlogs. -/
theorem step_bounded (hh : h.Tidy) (he : h.kernel.Exclusive) (hb : h.kernel.Bounded) {op : ShimOp}
    (hr : h.respects op = true) {r : Reply} {out : List Packet}
    (hs : h.step op = .ok (h', r, out)) : h'.kernel.Bounded := by
  rcases step_cases hh hs with hc | ⟨key, n, hn⟩ | ⟨pkt, rfl, hd⟩ | ⟨fuel, rfl, hg⟩
  · exact hb.calm hc
  · exact hb.newListener hh hn
  · exact hb.deliver hh he (Bool.not_eq_true' _ |>.mp hr) hd
  · -- the packets that `egress` delivers on the host, one by one
    refine (egress_invariant (P := fun k => k.Exclusive ∧ k.Bounded)
      (fun hc hk => ⟨hk.1.same hc.same, hk.2.calm hc⟩) (fun ht hk hp hd => ?_) hh ⟨he, hb⟩ hr hg).2
    exact ⟨hk.1.same (deliver_same ht hd), hk.2.deliver ht hk.1 (Bool.not_eq_true' _ |>.mp hp) hd⟩

theorem run_bounded : ∀ {ops : List ShimOp} {h h' : Host}, h.Tidy → h.kernel.Exclusive →
    h.kernel.Bounded → h.runRespects ops = true → h.run ops = .ok h' → h'.kernel.WithinBacklog
  | [], h, h', hh, he, hb, _, hrun => by
    cases hrun
    exact hb.within hh he
  | op :: ops, h, h', hh, he, hb, hr, hrun => by
    obtain ⟨⟨h1, r, out⟩, h1s, hrun⟩ := bind_eq_ok.mp hrun
    rw [runRespects, h1s, Bool.and_eq_true] at hr
    exact run_bounded ((step_safe hh op).of_ok h1s) (step_exclusive hh he h1s)
      (step_bounded hh he hb hr.1 h1s) hr.2 hrun

/-- **Every listener stays within its backlog** in a run in which no SYN overfills one. -/
theorem within_backlog (cfg : KernelConfig) (addrs : List IpAddr) (ops : List ShimOp) {h : Host}
    (hr : (Host.new cfg addrs).runRespects ops = true)
    (hrun : (Host.new cfg addrs).run ops = .ok h) : h.kernel.WithinBacklog := by
  refine run_bounded (new_tidy cfg addrs) (new_exclusive cfg addrs) (fun g st l hst => ?_) hr hrun
  rw [new_lookup] at hst
  cases hst

/-- A host with two addresses and room for one child. -/
def twoAddresses : Host :=
  Host.new { KernelConfig.default with defaultBacklog := 1 } [.v4 0x0A000001, .v4 0x0A000002]

/-- The SYN of a client for one of them. -/
def synTo (dst : IpAddr) (srcPort : UInt16) : ShimOp :=
  .deliver ⟨.v4 0x0A000009, dst, 64, .tcp ⟨srcPort, 80, 5, 0, { syn := true }, 100, []⟩⟩

/-- Two clients at one address: the second is turned away. -/
theorem within_backlog_refused :
    ∃ h, twoAddresses.run [.listen ⟨.v4 0, 80⟩, synTo (.v4 0x0A000001) 1000,
        synTo (.v4 0x0A000001) 1001] = .ok h
      ∧ h.kernel.children 1 = [2] ∧ h.kernel.WithinBacklog := by
  have hrun : (twoAddresses.run [.listen ⟨.v4 0, 80⟩, synTo (.v4 0x0A000001) 1000,
      synTo (.v4 0x0A000001) 1001]).toOption.map (fun h => h.kernel.children 1) = some [2] := by
    decide +kernel
  obtain ⟨h, hh, hchildren⟩ := Option.map_eq_some_iff.mp hrun
  have hok := toOption_eq_some.mp hh
  exact ⟨h, hok, hchildren, within_backlog _ _ _ (by decide +kernel) hok⟩

/-- **One client at each address**: a listener on the wildcard with a backlog of one has two
children. -/
theorem wildcard_overfills :
    ∃ h, twoAddresses.run [.listen ⟨.v4 0, 80⟩, synTo (.v4 0x0A000001) 1000,
        synTo (.v4 0x0A000002) 1000] = .ok h
      ∧ h.kernel.children 1 = [2, 3] ∧ ¬ h.kernel.WithinBacklog := by
  have hrun : (twoAddresses.run [.listen ⟨.v4 0, 80⟩, synTo (.v4 0x0A000001) 1000,
      synTo (.v4 0x0A000002) 1000]).toOption.bind (fun h => (h.kernel.lookup 1).bind fun st =>
        st.listen.map fun l => (h.kernel.children 1, l.backlog)) = some ([2, 3], 1) := by
    decide +kernel
  obtain ⟨h, hh, hrun⟩ := Option.bind_eq_some_iff.mp hrun
  obtain ⟨st, hst, hrun⟩ := Option.bind_eq_some_iff.mp hrun
  obtain ⟨l, hl, hrun⟩ := Option.map_eq_some_iff.mp hrun
  obtain ⟨hchildren, hbacklog⟩ := Prod.mk.inj hrun
  refine ⟨h, toOption_eq_some.mp hh, hchildren, fun hall => ?_⟩
  have := hall 1 st l hst hl
  rw [hchildren, hbacklog] at this
  simp at this

end Host

end Turmoil.Net
