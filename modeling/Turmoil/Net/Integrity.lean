/-
# The byte stream between two kernels

For one connection between two hosts, whatever is called on either, and whatever the fabric loses,
delays or reorders: what is read at one end is a prefix of what was accepted at the other, and a
read reports the end of the stream only when everything was read and the other end has shut it.

The invariant (`Inv`) is that both ends are right (`Kernel.AtEnd`), that what either has taken was
sent by the other, and that the packets on the wire between the two addresses are right.  An
operation touches one end; the other and the wire stay right because nothing that happened at an
end is ever undone (`Progress.Grows`).
-/
import Turmoil.Net.AtEnd

namespace Turmoil.Net

/-! ## 1. The start -/

namespace Kernel

theorem mem_addresses_host {cfg : KernelConfig} {addrs : List IpAddr} {a : IpAddr} :
    a ∈ (host cfg addrs).addresses ↔ a ∈ addrs := by
  have hfold : ∀ (more : List IpAddr) (k : Kernel),
      a ∈ (more.foldl addAddress k).addresses ↔ a ∈ k.addresses ∨ a ∈ more := by
    intro more
    induction more with
    | nil => simp
    | cons b more ih =>
      intro k
      rw [List.foldl_cons, ih, List.mem_cons, addAddress]
      split
      · rename_i hb
        have hb : b ∈ k.addresses := by simpa using hb
        constructor
        · exact fun h => h.imp id Or.inr
        · rintro (h | rfl | h)
          · exact Or.inl h
          · exact Or.inl hb
          · exact Or.inr h
      · rw [List.mem_append, List.mem_singleton, or_assoc]
  rw [host, hfold]
  simp [withConfig]

/-- Before anything has happened. -/
theorem AtEnd.host {cfg : KernelConfig} {addrs : List IpAddr} {loc rem : SocketAddr} (fd : Fd)
    (hrem : rem.ip.isLoopback = false) (hfar : rem.ip ∉ addrs) :
    (host cfg addrs).AtEnd loc rem fd .none .none := by
  have hsound := Sound.host cfg addrs
  have hlocal : (Kernel.host cfg addrs).isLocal rem.ip = false := by
    rw [isLocal, hrem, Bool.false_or, List.contains_eq_mem]
    exact decide_eq_false fun h => hfar (mem_addresses_host.mp h)
  obtain ⟨as, has⟩ := host_eq cfg addrs
  rw [has] at hsound hlocal ⊢
  have hlookup : ∀ f, ({ withConfig cfg with addresses := as } : Kernel).lookup f = none :=
    fun _ => rfl
  have hconn : ∀ f c, ({ withConfig cfg with addresses := as } : Kernel).conn? f ≠ some c := by
    intro f c hc
    rw [conn?, hlookup] at hc
    cases hc
  refine ⟨hsound, ⟨fun f st key hst => ?_, fun f c _ hc => absurd hc (hconn f c),
    fun l r f hf => ?_, fun pkt hp => ?_⟩, hlocal, fun f c hc => absurd hc (hconn f c), fun h => ?_,
    fun _ => ⟨fun c hc => absurd hc (hconn fd c), rfl⟩, fun c hc => absurd hc (hconn fd c),
    fun pkt hp => ?_⟩
  · rw [hlookup] at hst
    cases hst
  · cases hf
  · cases hp
  · cases h
  · cases hp

end Kernel

/-! ## 2. Both ends and the wire -/

namespace Link

open Pair

variable {l : Link} {G : Side → Progress} {p q : Pair} {x : Side} {r : Reply}

/-- What holds of both ends, and of what is on its way between them. -/
structure Inv (l : Link) (G : Side → Progress) (p : Pair) : Prop where
  ends : ∀ x, (p.kernel x).AtEnd (l.addr x) (l.addr x.other) (l.fd x) (G x) (G x.other)
  took : ∀ x, (G x).Took (G x.other)
  wire : ∀ x, FineFrom (l.addr x) (l.addr x.other) (G x) (G x.other) p.wire

/-- One end goes on. -/
theorem Inv.put {g : Progress} {k : Kernel} {wire : List Packet} (h : l.Inv G p)
    (hgrows : (G x).Grows g)
    (hk : k.AtEnd (l.addr x) (l.addr x.other) (l.fd x) g (G x.other)) (htook : g.Took (G x.other))
    (hout : FineFrom (l.addr x) (l.addr x.other) g (G x.other) wire)
    (hin : FineFrom (l.addr x.other) (l.addr x) (G x.other) g wire) :
    l.Inv (Function.update G x g) { p.put x k with wire := wire } := by
  have hself : Function.update G x g x = g := Function.update_self ..
  have hother : Function.update G x g x.other = G x.other := Function.update_of_ne x.other_ne ..
  have hthere := h.ends x.other
  have htaken := h.took x.other
  rw [Side.other_other] at hthere htaken
  refine ⟨fun y => ?_, fun y => ?_, fun y => ?_⟩
  · rcases Side.eq_or x y with rfl | rfl
    · rw [hself, hother]
      show ((p.put y k).kernel y).AtEnd _ _ _ _ _
      rw [put_self]
      exact hk
    · rw [Side.other_other, hself, hother]
      show ((p.put x k).kernel x.other).AtEnd _ _ _ _ _
      rw [put_other]
      exact hthere.mono htaken hgrows
  · rcases Side.eq_or x y with rfl | rfl
    · rw [hself, hother]
      exact htook
    · rw [Side.other_other, hself, hother]
      exact htaken.mono hgrows
  · rcases Side.eq_or x y with rfl | rfl
    · rw [hself, hother]
      exact hout
    · rw [Side.other_other, hself, hother]
      exact hin

/-- The connection `x` sees is the one the calls at `x` are about. -/
theorem onCall_self {α : Type} (l : Link) (x : Side) (p : Pair) (c : Syscall) (r : Reply)
    (f : Syscall → Reply → α) (a : α) :
    l.onCall x ⟨p, .call x c, r⟩ f a
      = if l.up x ⟨p, .call x c, r⟩ then f c r else a := by
  simp [onCall]

theorem onCall_other {α : Type} (l : Link) (x : Side) (p : Pair) (c : Syscall) (r : Reply)
    (f : Syscall → Reply → α) (a : α) : l.onCall x.other ⟨p, .call x c, r⟩ f a = a := by
  simp [onCall, x.other_ne.symm]

/-- An end and what is counted of it agree. -/
structure Counts (g g' : Progress) (sent read : List UInt8) (shut : Bool) : Prop where
  sent : g'.sent = g.sent ++ sent
  read : g'.read = g.read ++ read
  shut : g'.shut = (g.shut || shut)

theorem Counts.none {g g' : Progress} (h : g.Turn g') : Counts g g' [] [] false :=
  ⟨h.sent.trans (List.append_nil _).symm, h.read.trans (List.append_nil _).symm,
    h.shut.trans (Bool.or_false _).symm⟩

theorem Counts.kept (g : Progress) : Counts g g [] [] false := .none (.refl g)

/-- An end that goes on, beside one that does not. -/
theorem Counts.update {g : Progress} {ev : Event}
    (hself : Counts (G x) g (l.sentIn x ev) (l.readIn x ev) (l.shutIn x ev))
    (hother : l.sentIn x.other ev = [] ∧ l.readIn x.other ev = [] ∧ l.shutIn x.other ev = false)
    (y : Side) :
    Counts (G y) (Function.update G x g y) (l.sentIn y ev) (l.readIn y ev) (l.shutIn y ev) := by
  rcases Side.eq_or x y with rfl | rfl
  · rw [Function.update_self]
    exact hself
  · rw [Function.update_of_ne x.other_ne, hother.1, hother.2.1, hother.2.2]
    exact .kept _

/-- A packet is lost. -/
theorem Inv.lose (h : l.Inv G p) (i : Nat) : l.Inv G { p with wire := p.wire.eraseIdx i } :=
  ⟨h.ends, h.took, fun x pkt hp => h.wire x pkt (List.mem_of_mem_eraseIdx hp)⟩

/-- The addresses at one end. -/
theorem sole_at (h : l.sole p = true) (x : Side) :
    ∀ f, (p.kernel x).Connected (l.addr x) (l.addr x.other) f → f = l.fd x :=
  sole_iff.mp h x

theorem isLocal_of_hostForIp {ip : IpAddr} (h : p.hostForIp ip = some x) :
    (p.kernel x).isLocal ip = true := by
  unfold hostForIp at h
  rw [Kernel.isLocal, Bool.or_eq_true]
  split at h
  · rename_i hip
    cases h
    exact Or.inr hip
  · split at h
    · rename_i hip
      cases h
      exact Or.inr hip
    · cases h

/-- **One operation keeps the two ends right**, and moves what it says it moves. -/
theorem Inv.step {op : PairOp} (h : l.Inv G p) (hlen : ∀ x, (G x).sent.length < 2 ^ 31)
    (hsole : l.sole q = true) (hstep : p.step op = .ok (q, r)) :
    ∃ G', l.Inv G' q ∧ ∀ x, Counts (G x) (G' x) (l.sentIn x ⟨p, op, r⟩) (l.readIn x ⟨p, op, r⟩)
      (l.shutIn x ⟨p, op, r⟩) := by
  have htaken : ∀ x : Side, (G x.other).Took (G x) := by
    intro x
    have := h.took x.other
    rwa [Side.other_other] at this
  have hback : ∀ x : Side, FineFrom (l.addr x.other) (l.addr x) (G x.other) (G x) p.wire := by
    intro x
    have := h.wire x.other
    rwa [Side.other_other] at this
  cases op with
  | call x c =>
    obtain ⟨⟨k, r1⟩, h1, hstep⟩ := bind_eq_ok.mp hstep
    cases hstep
    have hsole' := sole_at hsole x
    rw [put_self] at hsole'
    obtain ⟨g, hcalls, hturn, hk, htook⟩ := (h.ends x).call (h.took x) (hlen x) (hlen x.other)
      (htaken x) h1 hsole'
    have hgrows : (G x).Grows g := by
      by_cases hconn : (p.kernel x).Connected (l.addr x) (l.addr x.other) (l.fd x)
      · exact (hcalls hconn).grows
      · exact (hturn hconn).grows
    refine ⟨_, h.put hgrows hk htook ((h.wire x).mono hgrows (.refl _))
      ((hback x).mono (.refl _) hgrows), fun y => Counts.update ?_ ?_ y⟩
    · unfold sentIn readIn shutIn
      rw [onCall_self, onCall_self, onCall_self]
      by_cases hconn : (p.kernel x).Connected (l.addr x) (l.addr x.other) (l.fd x)
      · rw [if_pos (up_iff.mpr hconn), if_pos (up_iff.mpr hconn), if_pos (up_iff.mpr hconn)]
        exact ⟨(hcalls hconn).sent, (hcalls hconn).read, (hcalls hconn).shut⟩
      · have hdown : ¬ l.up x ⟨p, .call x c, r⟩ = true := fun hup => hconn (up_iff.mp hup)
        rw [if_neg hdown, if_neg hdown, if_neg hdown]
        exact .none (hturn hconn)
    · exact ⟨onCall_other .., onCall_other .., onCall_other ..⟩
  | egress x fuel =>
    obtain ⟨⟨k, out⟩, h1, hstep⟩ := bind_eq_ok.mp hstep
    cases hstep
    obtain ⟨g, hturn, hk, htook, hfine, hsrc⟩ := (h.ends x).egress (hlen x) (hlen x.other)
      (h.took x) (htaken x) h1
    refine ⟨_, h.put hturn.grows hk htook
      (((h.wire x).mono hturn.grows (.refl _)).append hfine)
      (((hback x).mono (.refl _) hturn.grows).append fun pkt hp s hs hfrom _ => ?_),
      fun y => Counts.update (.none hturn) ⟨rfl, rfl, rfl⟩ y⟩
    -- this host does not send in the name of the other
    have hlocal := hsrc pkt hp s hs
    have hfar := (h.ends x).far
    rw [← hfrom] at hfar
    exact absurd (hlocal.symm.trans hfar) (by decide)
  | deliver i =>
    simp only [Pair.step] at hstep
    cases hi : p.wire[i]? with
    | none =>
      rw [hi] at hstep
      cases hstep
      exact ⟨G, h, fun y => .kept _⟩
    | some pkt =>
      rw [hi] at hstep
      obtain ⟨p1, h1, hstep⟩ := bind_eq_ok.mp hstep
      cases hstep
      have hmem : pkt ∈ p.wire := List.mem_of_getElem? hi
      have hlost := h.lose i
      unfold Pair.deliver at h1
      split at h1
      · cases h1
        exact ⟨G, hlost, fun y => .kept _⟩
      · rename_i x hhost
        obtain ⟨k, h2, h1⟩ := bind_eq_ok.mp h1
        cases h1
        have hsole' := sole_at hsole x
        rw [put_self] at hsole'
        have hfine : FineFrom (l.addr x.other) (l.addr x) (G x.other) (G x) [pkt] := by
          intro pkt' hp
          cases List.mem_singleton.mp hp
          exact hback x pkt hmem
        obtain ⟨g, hturn, hk, htook⟩ := (h.ends x).deliver (h.took x) (hlen x) (hlen x.other)
          (htaken x) (isLocal_of_hostForIp hhost) hfine h2 hsole'
        exact ⟨_, hlost.put hturn.grows hk htook ((hlost.wire x).mono hturn.grows (.refl _))
          (fun pkt' hp => (hback x).mono (.refl _) hturn.grows pkt' (List.mem_of_mem_eraseIdx hp)),
          fun y => Counts.update (.none hturn) ⟨rfl, rfl, rfl⟩ y⟩
  | lose i =>
    cases hstep
    exact ⟨G, h.lose i, fun y => .kept _⟩

/-- Some progress of the two ends explains what has happened so far. -/
def Explained (l : Link) (p : Pair) (evs : List Event) : Prop :=
  ∃ G, l.Inv G p ∧ ∀ x, (G x).sent = l.sent x evs ∧ (G x).read = l.read x evs
    ∧ (G x).shut = l.shut x evs

theorem Explained.step {evs : List Event} {op : PairOp} (h : l.Explained p evs)
    (hlen : ∀ x, (l.sent x (evs ++ [⟨p, op, r⟩])).length < 2 ^ 31) (hsole : l.sole q = true)
    (hstep : p.step op = .ok (q, r)) : l.Explained q (evs ++ [⟨p, op, r⟩]) := by
  obtain ⟨G, hinv, hcount⟩ := h
  have hlen' : ∀ x, (G x).sent.length < 2 ^ 31 := by
    intro x
    have := hlen x
    rw [sent_snoc, List.length_append] at this
    rw [(hcount x).1]
    omega
  obtain ⟨G', hinv', hcount'⟩ := hinv.step hlen' hsole hstep
  refine ⟨G', hinv', fun x => ⟨?_, ?_, ?_⟩⟩
  · rw [sent_snoc, ← (hcount x).1]
    exact (hcount' x).sent
  · rw [read_snoc, ← (hcount x).2.1]
    exact (hcount' x).read
  · rw [shut_snoc, ← (hcount x).2.2]
    exact (hcount' x).shut

/-- What is read at one end is a prefix of what was accepted at the other. -/
theorem Explained.read_prefix {evs : List Event} (h : l.Explained p evs) (x : Side) :
    l.read x.other evs <+: l.sent x evs := by
  obtain ⟨G, hinv, hcount⟩ := h
  have htook := hinv.took x.other
  rw [Side.other_other] at htook
  rw [← (hcount x.other).2.1, ← (hcount x).1]
  exact htook.read.trans (List.take_prefix _ _)

/-- The end of the stream is reported when it has been reached. -/
theorem Explained.ends {evs : List Event} {op : PairOp} (h : l.Explained p evs)
    (hstep : p.step op = .ok (q, r)) (x : Side) (hends : l.endsIn x.other ⟨p, op, r⟩ = true) :
    l.shut x evs = true ∧ l.read x.other evs = l.sent x evs := by
  obtain ⟨G, hinv, hcount⟩ := h
  have hend := hinv.ends x.other
  have htook := hinv.took x.other
  rw [Side.other_other] at hend htook
  rw [← (hcount x).1, ← (hcount x).2.2, ← (hcount x.other).2.1]
  cases op with
  | call y c =>
    rcases Side.eq_or x.other y with rfl | rfl
    · unfold endsIn at hends
      rw [onCall_self] at hends
      split at hends
      · rename_i hup
        obtain ⟨⟨k, r1⟩, h1, hstep⟩ := bind_eq_ok.mp hstep
        cases hstep
        have hconn := up_iff.mp hup
        rw [Side.other_other] at hconn
        exact hend.ends htook hconn h1 hends
      · cases hends
    · have hno : l.endsIn x.other ⟨p, .call x.other.other c, r⟩ = false := by
        have := onCall_other l x.other.other p c r (fun c r => c.ends (l.fd x.other) r) false
        rwa [Side.other_other] at this
      rw [hno] at hends
      cases hends
  | egress y fuel => cases hends
  | deliver i => cases hends
  | lose i => cases hends

/-- Before anything has happened. -/
theorem Explained.start {cfg : Side → KernelConfig} {addrs : Side → List IpAddr}
    (hclaims : Claims addrs) (haddr : ∀ x, (l.addr x).ip ∈ addrs x) :
    l.Explained (Pair.start cfg addrs) [] := by
  refine ⟨fun _ => .none, ⟨fun x => ?_, fun x => .of_nothing rfl rfl rfl,
    fun x pkt hp => absurd hp List.not_mem_nil⟩, fun x => ⟨rfl, rfl, rfl⟩⟩
  have hother := hclaims x.other _ (haddr x.other)
  rw [Side.other_other] at hother
  exact Kernel.AtEnd.host (l.fd x) hother.1 hother.2

/-! ## 3. Runs -/

section
variable {cfg : Side → KernelConfig} {addrs : Side → List IpAddr} {ops : List PairOp}
  {evs : List Event}

/-- A peek leaves everything as it was. -/
theorem peek_keeps {f : Fd} {len : Nat} (h : p.step (.call x (.peek f len)) = .ok (q, r)) :
    q = p := by
  obtain ⟨⟨k, r1⟩, h1, h⟩ := bind_eq_ok.mp h
  obtain ⟨r2, -, h1⟩ := bind_eq_ok.mp h1
  cases h1
  cases h
  have hsame : (fun y => if y = x then p.kernel x else p.kernel y) = p.kernel := by
    funext y
    split
    · rename_i hy
      rw [hy]
    · rfl
  rw [put, hsame]

/-- The run so far is explained, and every end of stream in it was right. -/
theorem run_explained (hclaims : Claims addrs) (haddr : ∀ x, (l.addr x).ip ∈ addrs x)
    (hrun : (start cfg addrs).run ops = .ok (q, evs)) (hsole : ∀ ev ∈ evs, l.sole ev.before = true)
    (hlast : l.sole q = true) (hlen : ∀ x, (l.sent x evs).length < 2 ^ 31) :
    l.Explained q evs ∧ ∀ (x : Side) evs₁ ev evs₂, evs = evs₁ ++ ev :: evs₂ →
      l.endsIn x.other ev = true → l.shut x evs₁ = true ∧ l.read x.other evs₁ = l.sent x evs₁ := by
  induction ops using List.reverseRecOn generalizing q evs with
  | nil =>
    cases hrun
    refine ⟨.start hclaims haddr, fun x evs₁ ev evs₂ heq => ?_⟩
    exact absurd heq.symm (by simp)
  | append_singleton ops op ih =>
    obtain ⟨p, evs, r, h1, h2, rfl⟩ := run_snoc hrun
    have hlen' : ∀ x, (l.sent x evs).length < 2 ^ 31 := by
      intro x
      have := hlen x
      rw [sent_snoc, List.length_append] at this
      omega
    obtain ⟨hexp, hends⟩ := ih h1 (fun ev hev => hsole ev (List.mem_append_left _ hev))
      (hsole ⟨p, op, r⟩ (List.mem_append_right _ (List.mem_singleton_self _))) hlen'
    refine ⟨hexp.step hlen hlast h2, fun x evs₁ ev evs₂ heq hend => ?_⟩
    -- the last event, or one before it
    rcases List.eq_nil_or_concat evs₂ with rfl | ⟨evs₃, ev', rfl⟩
    · obtain ⟨rfl, hev⟩ := List.append_inj' heq rfl
      cases hev
      exact hexp.ends h2 x hend
    · rw [List.concat_eq_append, ← List.cons_append, ← List.append_assoc] at heq
      obtain ⟨rfl, -⟩ := List.append_inj' heq rfl
      exact hends x evs₁ ev evs₃ rfl hend

/-- **The byte stream is intact.**  Two hosts, from the start, with any calls on either and any
packets lost, delayed or reordered: for one connection between them over which fewer than 2^31
bytes are sent either way, what is read at one end is a prefix of what the other accepted, a peek
changes nothing, and a read that fits something but returns nothing comes after the other end was
shut, with everything it accepted read. -/
theorem stream_integrity (hclaims : Claims addrs) (haddr : ∀ x, (l.addr x).ip ∈ addrs x)
    (hrun : (start cfg addrs).run ops = .ok (q, evs)) (hsole : ∀ ev ∈ evs, l.sole ev.before = true)
    (hlast : l.sole q = true) (hlen : ∀ x, (l.sent x evs).length < 2 ^ 31) (x : Side) :
    l.read x.other evs <+: l.sent x evs
      ∧ (∀ y f len q' r, q.step (.call y (.peek f len)) = .ok (q', r) → q' = q)
      ∧ ∀ evs₁ ev evs₂, evs = evs₁ ++ ev :: evs₂ → l.endsIn x.other ev = true →
        l.shut x evs₁ = true ∧ l.read x.other evs₁ = l.sent x evs₁ := by
  obtain ⟨hexp, hends⟩ := run_explained hclaims haddr hrun hsole hlast hlen
  exact ⟨hexp.read_prefix x, fun y f len q' r h => peek_keeps h, hends x⟩

end

/-- A client sends three bytes and shuts the stream.  The segment with the bytes is lost, so the
FIN comes first, and again after them. -/
def greetingOps : List PairOp :=
  [.call .right (.bind ⟨.v4 0x0A000002, 80⟩ .stream), .call .right (.listen 1 8),
    .call .left (.openSocket .inet .stream), .call .left (.connect 1 ⟨.v4 0x0A000002, 80⟩),
    .egress .left 4, .deliver 0, .egress .right 4, .deliver 0, .egress .left 4, .deliver 0,
    .call .right (.accept 1), .call .left (.send 1 [1, 2, 3]), .egress .left 4, .lose 0,
    .call .left (.shutdown 1), .egress .left 4, .egress .left 4, .egress .left 4, .deliver 0,
    .deliver 0, .call .right (.peek 2 8), .call .right (.recv 2 2), .deliver 0,
    .call .right (.recv 2 8), .call .right (.recv 2 8)]

def greetingAddrs : Side → List IpAddr
  | .left => [.v4 0x0A000001]
  | .right => [.v4 0x0A000002]

def greeting : Link where
  addr
    | .left => ⟨.v4 0x0A000001, 49152⟩
    | .right => ⟨.v4 0x0A000002, 80⟩
  fd
    | .left => 1
    | .right => 2

theorem stream_integrity_greeting :
    ∃ q evs, (start (fun _ => .default) greetingAddrs).run greetingOps = .ok (q, evs)
      ∧ greeting.read .right evs = [1, 2, 3] ∧ greeting.read .right evs <+: greeting.sent .left evs
      ∧ evs.map (greeting.endsIn .right) = List.replicate 24 false ++ [true]
      ∧ greeting.shut .left evs.dropLast = true := by
  have hfacts : ((start (fun _ => .default) greetingAddrs).run greetingOps).toOption.map
      (fun r => ((r.2.all fun ev => greeting.sole ev.before, greeting.sole r.1),
        ((greeting.sent .left r.2).length, (greeting.sent .right r.2).length),
        greeting.read .right r.2, r.2.map (greeting.endsIn .right)))
      = some ((true, true), (3, 0), [1, 2, 3], List.replicate 24 false ++ [true]) := by
    decide +kernel
  obtain ⟨⟨q, evs⟩, hrun, hfacts⟩ := Option.map_eq_some_iff.mp hfacts
  simp only [Prod.mk.injEq] at hfacts
  obtain ⟨⟨hsole, hlast⟩, ⟨hleft, hright⟩, hread, hends⟩ := hfacts
  have hok := toOption_eq_some.mp hrun
  have hclaims : Claims greetingAddrs := by
    intro x
    cases x <;> decide
  have haddr : ∀ x, (greeting.addr x).ip ∈ greetingAddrs x := by
    intro x
    cases x <;> decide
  have hlen : ∀ x, (greeting.sent x evs).length < 2 ^ 31 := by
    intro x
    cases x
    · rw [hleft]
      decide
    · rw [hright]
      decide
  obtain ⟨hbegins, -, hend⟩ := stream_integrity hclaims haddr hok (List.all_eq_true.mp hsole) hlast
    hlen .left
  refine ⟨q, evs, hok, hread, hbegins, hends, ?_⟩
  rcases List.eq_nil_or_concat evs with rfl | ⟨evs₁, ev, rfl⟩
  · cases hends
  · rw [List.concat_eq_append, List.map_append] at hends
    have hev := (List.append_inj' hends rfl).2
    rw [List.concat_eq_append, List.dropLast_concat]
    exact (hend evs₁ ev [] List.concat_eq_append (List.cons.inj hev).1).1

end Link

end Turmoil.Net
