/-
# The fabric and the datagrams in it

Every address has one owner, and the kernel of a host knows the addresses the host owns: `Sound`.  Then
a packet goes to the host that owns where it is sent, and what is sent to a host's own address or to
loopback stays on the host.

`Sound` holds of a new fabric, is kept when a host is added because the addresses are checked first,
and is kept by every step after that because no kernel changes its addresses.  With it, what a step of
one kernel does to its datagrams (`Passes`) becomes what a step of the fabric does to all of them
(`Fabric.Moves`).  The two ends of the fabric are the handing over of a packet and the turn in which
every host is asked for what it sends.
-/
import Turmoil.Net.Integrity
import Turmoil.Network.Datagrams

namespace Turmoil.Network

open Turmoil.Net
open Turmoil.Net.Kernel

namespace Fabric

/-! ## 1. Who owns an address -/

/-- The host that a packet sent by `h` is for: loopback is the host itself. -/
def owner (f : Fabric) (h : HostId) (ip : IpAddr) : Option HostId :=
  if ip.isLoopback then some h else f.ipToHost.get? ip

/-- **Who owns what.**  The table of addresses and the kernels tell the same story: a kernel takes a
packet for its own exactly if the table (or loopback) names its host.  Everything below rests on this,
because a kernel decides by its own list of addresses, and the fabric by its table. -/
structure Sound (f : Fabric) : Prop where
  owns : ∀ {id host}, f.hosts.get? id = some host → ∀ ip, host.kernel.isLocal ip = true
    ↔ f.owner id ip = some id
  outside : ∀ {ip id}, f.ipToHost.get? ip = some id → ip.isLoopback = false
    ∧ ∃ host, f.hosts.get? id = some host
  bound : ∀ {id host}, f.hosts.get? id = some host → Bound host.kernel
  fresh : ∀ {id host}, f.hosts.get? id = some host → id < f.nextId

variable {f f' : Fabric} {id : HostId}

/-- What the table owns is no loopback address, so it has the same owner seen from every host. -/
theorem owner_of_get? (hf : f.Sound) {ip : IpAddr} {dst : HostId} (h : f.ipToHost.get? ip = some dst)
    (id : HostId) : f.owner id ip = some dst := by
  rw [owner, (hf.outside h).1]
  exact h

theorem new_sound (cfg : KernelConfig) : (new cfg).Sound :=
  ⟨(fun h => by cases h), (fun h => by cases h), (fun h => by cases h), fun h => by cases h⟩

/-- A new kernel has the addresses it was made with, and answers for all of loopback. -/
theorem isLocal_host (cfg : KernelConfig) (addrs : List IpAddr) (ip : IpAddr) :
    (Kernel.host cfg addrs).isLocal ip = true ↔ ip.isLoopback = true ∨ ip ∈ addrs := by
  rw [isLocal, Bool.or_eq_true, List.contains_iff_mem, mem_addresses_host]

/-- The loop that enters the addresses of a host overwrites what was there.  That none of them was
there is `validate_ok`. -/
theorem get?_claim (addrs : List IpAddr) (id : HostId) (ip : IpAddr) : ∀ m : IndexMap IpAddr HostId,
    (addrs.foldl (fun m a => m.insert a id) m).get? ip = if ip ∈ addrs then some id else m.get? ip := by
  induction addrs with
  | nil => exact fun m => (if_neg List.not_mem_nil).symm
  | cons a addrs ih =>
    intro m
    rw [List.foldl_cons, ih, IndexMap.get?_insert]
    by_cases h : ip ∈ addrs
    · rw [if_pos h, if_pos (List.mem_cons_of_mem a h)]
    · rw [if_neg h]
      by_cases ha : ip = a
      · rw [if_pos ha, if_pos (List.mem_cons.mpr (.inl ha))]
      · rw [if_neg ha, if_neg (by rw [List.mem_cons]; exact fun hm => hm.elim ha h)]

/-- No address that is accepted is loopback, or has an owner. -/
theorem validate_ok : ∀ {addrs : List IpAddr}, f.validate addrs = .ok () →
    ∀ a ∈ addrs, a.isLoopback = false ∧ f.ipToHost.get? a = none
  | [], _, a, ha => absurd ha List.not_mem_nil
  | b :: addrs, h, a, ha => by
    unfold validate at h
    split at h
    · cases h
    · rename_i hloop
      split at h
      · cases h
      · rename_i hfree
        rcases List.mem_cons.mp ha with rfl | ha
        · refine ⟨Bool.eq_false_iff.mpr hloop, ?_⟩
          cases hg : f.ipToHost.get? a with
          | none => rfl
          | some id => exact absurd (IndexMap.contains_iff.mpr ⟨id, hg⟩) hfree
        · exact validate_ok h a ha

/-- A kernel without sockets satisfies whatever is said of sockets. -/
theorem bound_host (cfg : KernelConfig) (addrs : List IpAddr) : Bound (Kernel.host cfg addrs) := by
  obtain ⟨as, has⟩ := host_eq cfg addrs
  rw [has]
  exact ⟨(fun h => by cases h), (fun h => by cases h), (fun h => by cases h), (fun h => by cases h),
    fun h => by cases h⟩

/-- A host that is added has the next identifier, and its addresses. -/
theorem addHost_eq_ok {addrs : List IpAddr} (h : f.addHost addrs = .ok (f', id)) :
    f.validate addrs = .ok () ∧ f' = { f with
      hosts := f.hosts.insert f.nextId ⟨addrs, Kernel.host f.defaultCfg addrs⟩
      ipToHost := addrs.foldl (fun m a => m.insert a f.nextId) f.ipToHost
      nextId := f.nextId + 1 } := by
  obtain ⟨r, hr, h⟩ := bind_eq_ok.mp h
  split at h
  · cases h
    unfold tryAddHost at hr
    split at hr
    · cases hr
    · rename_i hvalid
      dsimp only at hr
      split at hr
      · cases hr
        exact ⟨hvalid, rfl⟩
      · cases hr
  · cases h

/-- **Adding a host keeps the story straight**: its addresses had no owner, so no other kernel answers
for them, and its identifier is new, so the table does not name it yet. -/
theorem addHost_sound (hf : f.Sound) {addrs : List IpAddr} (h : f.addHost addrs = .ok (f', id)) :
    f'.Sound := by
  obtain ⟨hvalid, rfl⟩ := addHost_eq_ok h
  have hfree := validate_ok hvalid
  have hget : ∀ {g host}, (f.hosts.insert f.nextId ⟨addrs, Kernel.host f.defaultCfg addrs⟩).get? g
      = some host → (g = f.nextId ∧ host = ⟨addrs, Kernel.host f.defaultCfg addrs⟩)
        ∨ (g ≠ f.nextId ∧ f.hosts.get? g = some host) := by
    intro g host hg
    rw [IndexMap.get?_insert] at hg
    split at hg
    · rename_i heq
      cases hg
      exact .inl ⟨heq, rfl⟩
    · rename_i hne
      exact .inr ⟨hne, hg⟩
  refine ⟨fun hg ip => ?_, fun hip => ?_, fun hg => ?_, fun hg => ?_⟩
  · rw [owner, get?_claim]
    rcases hget hg with ⟨rfl, rfl⟩ | ⟨hne, hg⟩
    · rw [isLocal_host]
      by_cases hloop : ip.isLoopback = true
      · rw [if_pos hloop]
        exact ⟨fun _ => rfl, fun _ => .inl hloop⟩
      · rw [if_neg hloop]
        by_cases hmem : ip ∈ addrs
        · rw [if_pos hmem]
          exact ⟨fun _ => rfl, fun _ => .inr hmem⟩
        · rw [if_neg hmem]
          refine ⟨fun h => absurd h (fun h => h.elim hloop hmem), fun h => ?_⟩
          obtain ⟨-, host, hhost⟩ := hf.outside h
          exact absurd (hf.fresh hhost) (Nat.lt_irrefl _)
    · rw [hf.owns hg ip, owner]
      by_cases hmem : ip ∈ addrs
      · obtain ⟨hloop, hnone⟩ := hfree ip hmem
        rw [if_pos hmem, hloop, hnone]
        exact ⟨(fun h => by cases h), fun h => absurd (Option.some.inj h).symm hne⟩
      · rw [if_neg hmem]
  · rw [get?_claim] at hip
    split at hip
    · rename_i hmem
      cases hip
      exact ⟨(hfree _ hmem).1, _, (IndexMap.get?_insert ..).trans (if_pos rfl)⟩
    · obtain ⟨hloop, host, hhost⟩ := hf.outside hip
      exact ⟨hloop, host, (IndexMap.get?_insert ..).trans
        ((if_neg (Nat.ne_of_lt (hf.fresh hhost))).trans hhost)⟩
  · rcases hget hg with ⟨rfl, rfl⟩ | ⟨-, hg⟩
    · exact bound_host _ _
    · exact hf.bound hg
  · rcases hget hg with ⟨rfl, rfl⟩ | ⟨-, hg⟩
    · exact Nat.lt_succ_self _
    · exact Nat.lt_succ_of_lt (hf.fresh hg)

/-! ## 2. The datagrams in the fabric -/

/-- What the hosts hold. -/
def pool (f : Fabric) : List Item := f.hosts.entries.flatMap fun e => held (f.owner e.1) e.1 e.2.kernel

/-- A kernel that is put back is there, and the other hosts are what they were. -/
theorem get?_put {host : Host} (h : f.hosts.get? id = some host) (k : Kernel) (g : HostId) :
    (f.put id k).hosts.get? g = if g = id then some { host with kernel := k } else f.hosts.get? g := by
  rw [put, IndexMap.get?_modify, h]
  rfl

/-- A kernel may change in any way that keeps its addresses: `Sound` says nothing else of it. -/
theorem put_sound (hf : f.Sound) {host : Host} (h : f.hosts.get? id = some host) {k : Kernel}
    (haddr : k.addresses = host.kernel.addresses) (hb : Bound k) : (f.put id k).Sound := by
  have hget : ∀ {g host'}, (f.put id k).hosts.get? g = some host' →
      (g = id ∧ host' = { host with kernel := k }) ∨ f.hosts.get? g = some host' := by
    intro g host' hg
    rw [get?_put h] at hg
    split at hg
    · rename_i heq
      cases hg
      exact .inl ⟨heq, rfl⟩
    · exact .inr hg
  refine ⟨fun hg ip => ?_, fun hip => ?_, fun hg => ?_, fun hg => ?_⟩
  · rcases hget hg with ⟨rfl, rfl⟩ | hg
    · rw [isLocal_of_addresses haddr]
      exact hf.owns h ip
    · exact hf.owns hg ip
  · obtain ⟨hloop, host', hhost⟩ := hf.outside hip
    refine ⟨hloop, ?_⟩
    rw [get?_put h]
    split
    · exact ⟨_, rfl⟩
    · exact ⟨host', hhost⟩
  · rcases hget hg with ⟨rfl, rfl⟩ | hg
    · exact hb
    · exact hf.bound hg
  · rcases hget hg with ⟨rfl, rfl⟩ | hg
    · exact hf.fresh h
    · exact hf.fresh hg

/-- The datagrams of the fabric are counted host by host, so when one kernel changes the count changes
by what that kernel gains or loses.  It is stated with a sum on either side because a difference of
numbers would be cut off at zero. -/
theorem pool_put {host : Host} (h : f.hosts.get? id = some host) (k : Kernel) (x : Item) :
    (f.put id k).pool.count x + (held (f.owner id) id host.kernel).count x
      = f.pool.count x + (held (f.owner id) id k).count x := by
  obtain ⟨l₁, l₂, hentries, hmodify⟩ := IndexMap.modify_split h
  have hput : (f.put id k).pool = (l₁.flatMap fun e => held (f.owner e.1) e.1 e.2.kernel)
      ++ (held (f.owner id) id k ++ l₂.flatMap fun e => held (f.owner e.1) e.1 e.2.kernel) := by
    show (f.hosts.modify id _).entries.flatMap _ = _
    rw [hmodify, List.flatMap_append, List.flatMap_cons]
    rfl
  have hpool : f.pool = (l₁.flatMap fun e => held (f.owner e.1) e.1 e.2.kernel)
      ++ (held (f.owner id) id host.kernel
        ++ l₂.flatMap fun e => held (f.owner e.1) e.1 e.2.kernel) := by
    rw [pool, hentries, List.flatMap_append, List.flatMap_cons]
  rw [hput, hpool]
  simp only [List.count_append]
  omega

/-- What a step of the fabric does to the datagrams in it, with those it gives away and those that come
in. -/
structure Moves (f f' : Fabric) (sent received : List Item) : Prop where
  ipToHost : f'.ipToHost = f.ipToHost
  keys : f'.hosts.keys = f.hosts.keys
  sound : f'.Sound
  count : ∀ x, received.count x + f'.pool.count x ≤ f.pool.count x + sent.count x

theorem owner_of_ipToHost (h : f'.ipToHost = f.ipToHost) : f'.owner = f.owner := by
  funext id ip
  rw [owner, owner, h]

theorem Moves.refl (hf : f.Sound) : Moves f f [] [] :=
  ⟨rfl, rfl, hf, fun x => by rw [List.count_nil]; omega⟩

/-- Steps compose: what is received in either was there before the first, or sent in one of them. -/
theorem Moves.trans {f₁ f₂ : Fabric} {sent₁ sent₂ received₁ received₂ : List Item}
    (h₁ : Moves f f₁ sent₁ received₁) (h₂ : Moves f₁ f₂ sent₂ received₂) :
    Moves f f₂ (sent₁ ++ sent₂) (received₁ ++ received₂) := by
  refine ⟨h₂.ipToHost.trans h₁.ipToHost, h₂.keys.trans h₁.keys, h₂.sound, fun x => ?_⟩
  have hx₁ := h₁.count x
  have hx₂ := h₂.count x
  simp only [List.count_append]
  omega

/-- What a step of one kernel does (`Passes`) is what the fabric does in that step. -/
theorem put_moves (hf : f.Sound) {host : Host} (h : f.hosts.get? id = some host) {k : Kernel}
    {sent received : List Item} (hp : Passes (f.owner id) id host.kernel k sent received) :
    Moves f (f.put id k) sent received := by
  refine ⟨rfl, ?_, put_sound hf h hp.addresses hp.bound, fun x => ?_⟩
  · exact IndexMap.keys_update ..
  · have hput := pool_put h k x
    have hcount := hp.count x
    omega

/-! ## 3. The two ends of the fabric -/

theorem kernel_eq_ok {k : Kernel} (h : f.kernel id = .ok k) :
    ∃ host, f.hosts.get? id = some host ∧ host.kernel = k := by
  obtain ⟨host, hhost, h⟩ := bind_eq_ok.mp h
  cases h
  exact ⟨host, expect_eq_ok.mp hhost, rfl⟩

/-- A packet on its way between hosts. -/
def wireItem (f : Fabric) (pkt : Packet) : Option Item := itemOf f.ipToHost.get? pkt

/-- **A packet is handed over** to the owner of its destination, or to no one. -/
theorem deliver_moves (hf : f.Sound) {pkt : Packet} (hd : f.deliver pkt = .ok f') :
    Moves f f' (f.wireItem pkt).toList [] := by
  unfold Fabric.deliver at hd
  split at hd
  · cases hd
    exact ⟨rfl, rfl, hf, fun x => by rw [List.count_nil]; omega⟩
  · rename_i dst hdst
    obtain ⟨k, hk, hd⟩ := bind_eq_ok.mp hd
    obtain ⟨k', hk', hd⟩ := bind_eq_ok.mp hd
    cases hd
    obtain ⟨host, hhost, rfl⟩ := kernel_eq_ok hk
    have howner : f.owner dst pkt.dst = some dst := owner_of_get? hf hdst dst
    have hitem : f.wireItem pkt = itemOf (f.owner dst) pkt := by
      unfold wireItem itemOf
      split
      · rw [howner, hdst]
      · rfl
    rw [hitem]
    exact put_moves hf hhost (deliver_passes _ _ (hf.bound hhost) howner ((hf.owns hhost _).mpr howner) hk')

/-- Between hosts an address means the same to everyone: what leaves a host is not for loopback. -/
theorem itemsOf_wire {k : Kernel} {pkts : List Packet} (hout : ∀ p ∈ pkts, k.isLocal p.dst = false) :
    itemsOf (f.owner id) pkts = itemsOf f.ipToHost.get? pkts := by
  refine List.filterMap_congr fun p hp => ?_
  have hloop : p.dst.isLoopback = false := by
    have hlocal := hout p hp
    rw [isLocal, Bool.or_eq_false_iff] at hlocal
    exact hlocal.1
  unfold itemOf
  split
  · rw [owner, hloop]
    rfl
  · rfl

/-- **A turn of every host**: what leaves was in the fabric. -/
theorem egressHosts_moves {fuel : Nat} : ∀ {ids : List HostId} {f f' : Fabric} {out : List Packet},
    f.Sound → egressHosts fuel ids f = .ok (f', out) →
    f'.ipToHost = f.ipToHost ∧ f'.hosts.keys = f.hosts.keys ∧ f'.Sound
      ∧ ∀ x, f'.pool.count x + (itemsOf f.ipToHost.get? out).count x ≤ f.pool.count x := by
  intro ids
  induction ids with
  | nil =>
    intro f f' out hf h
    cases h
    exact ⟨rfl, rfl, hf, fun x => Nat.le_refl _⟩
  | cons id ids ih =>
    intro f f' out hf h
    obtain ⟨k, hk, h⟩ := bind_eq_ok.mp h
    obtain ⟨⟨k', out₁⟩, hk', h⟩ := bind_eq_ok.mp h
    obtain ⟨⟨f₂, out₂⟩, h₂, h⟩ := bind_eq_ok.mp h
    cases h
    obtain ⟨host, hhost, rfl⟩ := kernel_eq_ok hk
    have hl := egress_leaves (f.owner id) id (hf.bound hhost)
      (fun ip hip => (hf.owns hhost ip).mp hip) hk'
    obtain ⟨hip, hkeys, hf', hcount⟩ := ih (put_sound hf hhost hl.addresses hl.bound) h₂
    refine ⟨hip, hkeys.trans (IndexMap.keys_update ..), hf', fun x => ?_⟩
    have hput := pool_put hhost k' x
    have hx := hl.count x
    have hx₂ := hcount x
    rw [itemsOf_wire hl.outside] at hx
    rw [itemsOf_append, List.count_append]
    show _ + (_ + (itemsOf (f.put id k').ipToHost.get? out₂).count x) ≤ _
    omega

end Fabric

end Turmoil.Network
